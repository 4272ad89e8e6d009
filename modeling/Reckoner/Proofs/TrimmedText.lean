import Mathlib.Data.List.DropRight
import Reckoner.Proofs.LineText

/-! Trimmed lines. Trimming takes blanks from both ends of a text and nothing else, and splitting into
lines takes the breaks, which are blank; so the trimmed lines of a text hold its characters that are not
blank, in order (`inked_flatten_trimmedLines`). They are lines in a normal form: put together again with line
feeds between them, they are the trimmed lines of the text that this gives (`trimmedLines_intercalate`).
Line ends that become line feeds when a file is read make no difference (`lines_withLineFeeds`). -/

namespace Reckoner
namespace Text

/-- The characters of a text that are not blank. -/
def inked (cs : List Char) : List Char :=
  cs.filter fun c => !isBlank c

/-- Whether no blank stands at either end of a text. -/
def IsTrimmed (cs : List Char) : Prop :=
  (∀ c ∈ cs.head?, isBlank c = false) ∧ ∀ c ∈ cs.getLast?, isBlank c = false

/-- A line in normal form: there is something on it, no blank at its ends and no break in it. -/
structure IsNormalLine (l : List Char) : Prop where
  ne_nil : l ≠ []
  trimmed : IsTrimmed l
  line : IsLine l

variable {c : Char} {cs ds l : List Char} {ls : List (List Char)}

@[simp] theorem inked_append : inked (cs ++ ds) = inked cs ++ inked ds :=
  List.filter_append cs ds

theorem inked_cons_of_blank (h : isBlank c = true) : inked (c :: cs) = inked cs :=
  List.filter_cons_of_neg (by simp [h])

theorem inked_of_blanks (h : ∀ c ∈ cs, isBlank c = true) : inked cs = [] := by
  apply List.filter_eq_nil_iff.mpr
  intro c hc
  simp [h c hc]

theorem trim_eq_rdropWhile (cs : List Char) : trim cs = (cs.dropWhile isBlank).rdropWhile isBlank :=
  rfl

/-- A text is its trimmed text with blanks around it. -/
theorem exists_blanks_around (cs : List Char) :
    ∃ before after, cs = before ++ (trim cs ++ after) ∧ (∀ c ∈ before, isBlank c = true) ∧
      ∀ c ∈ after, isBlank c = true := by
  refine ⟨cs.takeWhile isBlank, (cs.dropWhile isBlank).rtakeWhile isBlank, ?_,
    fun c hc => List.mem_takeWhile_imp hc, fun c hc => List.mem_rtakeWhile_imp hc⟩
  rw [trim_eq_rdropWhile, List.rdropWhile_append_rtakeWhile, List.takeWhile_append_dropWhile]

theorem isTrimmed_trim (cs : List Char) : IsTrimmed (trim cs) := by
  rw [trim_eq_rdropWhile]
  constructor
  · intro c hc
    obtain ⟨after, hafter⟩ := List.rdropWhile_prefix isBlank (l := cs.dropWhile isBlank)
    have hhead : (cs.dropWhile isBlank).head? = some c := by
      rw [← hafter, List.head?_append, Option.mem_def.mp hc, Option.some_or]
    have hnot := List.head?_dropWhile_not isBlank cs
    rw [hhead] at hnot
    exact hnot
  · intro c hc
    have hne : (cs.dropWhile isBlank).rdropWhile isBlank ≠ [] := by
      intro hnil
      rw [hnil] at hc
      cases hc
    rw [List.getLast?_eq_some_getLast hne, Option.mem_some_iff] at hc
    rw [← hc, ← Bool.not_eq_true]
    exact List.rdropWhile_last_not isBlank _ hne

theorem trim_of_isTrimmed (h : IsTrimmed cs) : trim cs = cs := by
  have hfront : cs.dropWhile isBlank = cs := by
    cases cs with
    | nil => rfl
    | cons c cs => exact List.dropWhile_cons_of_neg (by simp [h.1 c rfl])
  rw [trim_eq_rdropWhile, hfront, List.rdropWhile_eq_self_iff]
  intro hne
  simp [h.2 _ (List.getLast?_eq_some_getLast hne)]

theorem trim_trim (cs : List Char) : trim (trim cs) = trim cs :=
  trim_of_isTrimmed (isTrimmed_trim cs)

/-- Trimming loses blanks alone. -/
theorem inked_trim (cs : List Char) : inked (trim cs) = inked cs := by
  obtain ⟨before, after, hsplit, hbefore, hafter⟩ := exists_blanks_around cs
  conv_rhs => rw [hsplit]
  simp [inked_of_blanks hbefore, inked_of_blanks hafter]

theorem lines_cons_of_break (h : isLineBreak c = true) (hpair : c = '\r' → cs.head? ≠ some '\n') :
    lines (c :: cs) = [] :: lines cs := by
  rw [lines, if_pos h]
  rintro rest rfl rfl
  exact hpair rfl rfl

theorem lines_of_isLine (hne : l ≠ []) (h : IsLine l) : lines l = [l] := by
  induction l with
  | nil => exact absurd rfl hne
  | cons c l ih =>
      obtain ⟨hc, hl⟩ := isLine_cons.mp h
      rw [lines_cons_of_not_break hc]
      by_cases hnil : l = []
      · rw [hnil]
        rfl
      · rw [ih hnil hl]

/-- Splitting loses line breaks alone, and they are blank. -/
theorem inked_flatten_lines (cs : List Char) : inked (lines cs).flatten = inked cs := by
  induction cs using lines.induct with
  | case1 => rw [lines, List.flatten_nil]
  | case2 rest ih =>
      rw [lines, List.flatten_cons, List.nil_append, ih, inked_cons_of_blank rfl,
        inked_cons_of_blank rfl]
  | case3 c rest hpair hbreak ih =>
      rw [lines, if_pos hbreak, List.flatten_cons, List.nil_append, ih,
        inked_cons_of_blank (isBlank_of_isLineBreak hbreak)]
      exact hpair
  | case4 c rest _ hbreak hnil ih =>
      rw [hnil] at ih
      rw [lines_cons_of_not_break (Bool.not_eq_true _ ▸ hbreak), hnil]
      calc inked [[c]].flatten = inked ([c] ++ ([] : List (List Char)).flatten) := rfl
        _ = inked ([c] ++ rest) := by rw [inked_append, ih, inked_append]
  | case5 c rest _ hbreak line more hlines ih =>
      rw [hlines] at ih
      rw [lines_cons_of_not_break (Bool.not_eq_true _ ▸ hbreak), hlines]
      calc inked ((c :: line) :: more).flatten = inked ([c] ++ (line :: more).flatten) := rfl
        _ = inked ([c] ++ rest) := by rw [inked_append, ih, inked_append]

/-- A line feed splits where the line end stood that it has replaced. -/
theorem lines_withLineFeeds (cs : List Char) : lines (withLineFeeds cs) = lines cs := by
  induction cs using withLineFeeds.induct with
  | case1 => rfl
  | case2 rest ih =>
      rw [withLineFeeds, lines, lines_cons_of_break rfl (fun h => absurd h (by decide)), ih]
  | case3 c rest hpair ih =>
      rw [withLineFeeds]
      case x_1 => exact hpair
      by_cases hreturn : c = '\r'
      · have hnext : c = '\r' → rest.head? ≠ some '\n' := by
          intro hc hhead
          obtain ⟨rest', rfl⟩ := List.head?_eq_some_iff.mp hhead
          exact hpair rest' hc rfl
        rw [if_pos hreturn, lines_cons_of_break rfl (fun h => absurd h (by decide)),
          lines_cons_of_break (hreturn ▸ rfl) hnext, ih]
      · rw [if_neg hreturn]
        by_cases hbreak : isLineBreak c = true
        · have hno : ∀ rest : List Char, c = '\r' → rest.head? ≠ some '\n' := fun _ hc =>
            absurd hc hreturn
          rw [lines_cons_of_break hbreak (hno _), lines_cons_of_break hbreak (hno _), ih]
        · have hbreak' := Bool.not_eq_true _ ▸ hbreak
          rw [lines_cons_of_not_break hbreak', lines_cons_of_not_break hbreak', ih]

theorem trimmedLines_withLineFeeds (cs : List Char) :
    trimmedLines (withLineFeeds cs) = trimmedLines cs := by
  rw [trimmedLines, lines_withLineFeeds, trimmedLines]

theorem isNormalLine_of_mem_trimmedLines (h : l ∈ trimmedLines cs) : IsNormalLine l := by
  have hline := isLine_of_mem_trimmedLines h
  obtain ⟨hmem, hne⟩ := List.mem_filter.mp h
  obtain ⟨untrimmed, -, rfl⟩ := List.mem_map.mp hmem
  exact ⟨by simpa using hne, isTrimmed_trim untrimmed, hline⟩

theorem inked_flatten_trimmedLines (cs : List Char) : inked (trimmedLines cs).flatten = inked cs := by
  have htrimmed : ∀ ls : List (List Char),
      inked ((ls.map trim).filter (!·.isEmpty)).flatten = inked ls.flatten := by
    intro ls
    induction ls with
    | nil => rfl
    | cons l ls ih =>
        rw [List.flatten_cons, inked_append, ← ih, ← inked_trim l, List.map_cons]
        by_cases hnil : trim l = []
        · simp [hnil, inked]
        · rw [List.filter_cons_of_pos (by simpa using hnil), List.flatten_cons, inked_append]
  rw [trimmedLines, htrimmed, inked_flatten_lines]

theorem lines_intercalate (h : ∀ l ∈ ls, IsNormalLine l) : lines (['\n'].intercalate ls) = ls := by
  induction ls with
  | nil => rfl
  | cons l ls ih =>
      obtain ⟨hl, hls⟩ := List.forall_mem_cons.mp h
      cases ls with
      | nil =>
          have hsingle : ['\n'].intercalate [l] = l := by simp [List.intercalate]
          rw [hsingle, lines_of_isLine hl.ne_nil hl.line]
      | cons next ls =>
          have hjoin : ['\n'].intercalate (l :: next :: ls) =
              l ++ '\n' :: ['\n'].intercalate (next :: ls) := by
            simp [List.intercalate]
          rw [hjoin, lines_append_break hl.line, ih hls]

/-- Lines in normal form are read back from the text in which line feeds divide them. -/
theorem trimmedLines_intercalate (h : ∀ l ∈ ls, IsNormalLine l) :
    trimmedLines (['\n'].intercalate ls) = ls := by
  have hmap : ls.map trim = ls := by
    calc ls.map trim = ls.map id := List.map_congr_left fun l hl => trim_of_isTrimmed (h l hl).trimmed
      _ = ls := List.map_id ls
  rw [trimmedLines, lines_intercalate h, hmap, List.filter_eq_self]
  intro l hl
  simpa using (h l hl).ne_nil

end Text
end Reckoner
