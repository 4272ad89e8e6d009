/-! Lines that hold any text. Inside a line a line feed and a backslash stand as escapes, so texts that are
written on lines of their own are read back as they were (`lines?_lineText`). -/

namespace Reckoner.Text

/-- A character inside a line. -/
def escapeBreak (c : Char) : List Char :=
  if c = '\\' then ['\\', '\\'] else if c = '\n' then ['\\', 'n'] else [c]

def lineText (s : List Char) : List Char :=
  s.flatMap escapeBreak ++ ['\n']

/-- Adds a character to the first of several lines; a line without its end is none. -/
def extendFirst (c : Char) : Option (List (List Char)) → Option (List (List Char))
  | some (line :: lines) => some ((c :: line) :: lines)
  | _ => none

/-- The texts of lines, none when a line does not end or holds an escape that is not written. -/
def lines? : List Char → Option (List (List Char))
  | [] => some []
  | '\n' :: rest => (lines? rest).map ([] :: ·)
  | '\\' :: '\\' :: rest => extendFirst '\\' (lines? rest)
  | '\\' :: 'n' :: rest => extendFirst '\n' (lines? rest)
  | c :: rest => if c = '\\' then none else extendFirst c (lines? rest)

theorem lines?_escapeBreak (c : Char) (rest : List Char) :
    lines? (escapeBreak c ++ rest) = extendFirst c (lines? rest) := by
  unfold escapeBreak
  split
  · next h => rw [h]; rfl
  · next hslash =>
    split
    · next h => rw [h]; rfl
    · next hfeed =>
      rw [List.singleton_append, lines?.eq_def]
      split <;> simp_all

/-- A line in front of others is read as its text, and the others as theirs. -/
theorem lines?_lineText (s rest : List Char) :
    lines? (lineText s ++ rest) = (lines? rest).map (s :: ·) := by
  induction s with
  | nil => rfl
  | cons c s ih =>
    have step : lineText (c :: s) ++ rest = escapeBreak c ++ (lineText s ++ rest) := by
      simp [lineText]
    rw [step, lines?_escapeBreak, ih]
    cases lines? rest <;> rfl

end Reckoner.Text
