import Mathlib.Data.List.Basic
import Reckoner.Expression.Basic
import Reckoner.Expression.Tree

/-! Infix as it is written. A formula is a tree over numerals, and a text writes it when parentheses
stand at least where precedence and association to the left ask for them; further parentheses and
spaces may stand anywhere between. The lexemes of a text are found part by part (`scan_append`), so
those of a written formula can be told from the formula's own parts. -/

namespace Reckoner

/-- A run of decimal digits. -/
structure Digits where
  chars : List Char
  ne_nil : chars ≠ []
  isDigit_of_mem : ∀ c ∈ chars, c.isDigit = true

/-- The digits of a number. -/
def Digits.ofNat (n : Nat) : Digits where
  chars := Nat.toDigits 10 n
  ne_nil := fun h => absurd (congrArg List.length h) (by simp)
  isDigit_of_mem := fun _ hc => Nat.isDigit_of_mem_toDigits (by decide) (by decide) hc

/-- A number as it is written: digits, and a fraction where a point and more digits follow. -/
structure Numeral where
  whole : Digits
  fraction : Option Digits

namespace Numeral

def places (n : Numeral) : List Char :=
  (n.fraction.map Digits.chars).getD []

def text (n : Numeral) : List Char :=
  n.whole.chars ++
    match n.fraction with
    | none => []
    | some fraction => '.' :: fraction.chars

/-- The double nearest to the number that the digits write. -/
def value (n : Numeral) : Binary64 :=
  Decimal.toBinary64 ⟨Nat.ofDigitChars 10 (n.whole.chars ++ n.places) 0, -n.places.length⟩ false

end Numeral

/-- An expression as a tree of operations on numerals. -/
inductive Formula where
  | numeral (n : Numeral)
  | operation (left : Formula) (op : Operator) (right : Formula)

namespace Formula

/-- The tree of the numbers that the numerals stand for. -/
def tree : Formula → ExpressionTree
  | numeral n => .number n.value
  | operation left op right => .operation left.tree op right.tree

/-- The texts that write a formula at a place where an operation that binds less tightly than `level`
needs parentheses. The right part of an operation is a place of the next level, since operators of one
precedence associate to the left. -/
inductive Written : Nat → Formula → List Char → Prop
  | numeral {level : Nat} (n : Numeral) : Written level (.numeral n) n.text
  | operation {level : Nat} {left right : Formula} {op : Operator} {cs ds : List Char} :
      level ≤ op.precedence → Written op.precedence left cs → Written (op.precedence + 1) right ds →
      Written level (.operation left op right) (cs ++ op.symbol :: ds)
  | parenthesised {level : Nat} {f : Formula} {cs : List Char} :
      Written 0 f cs → Written level f ('(' :: cs ++ [')'])
  | spaceBefore {level : Nat} {f : Formula} {cs : List Char} :
      Written level f cs → Written level f (' ' :: cs)
  | spaceAfter {level : Nat} {f : Formula} {cs : List Char} :
      Written level f cs → Written level f (cs ++ [' '])

end Formula

namespace Text

theorem digitValue?_of_isDigit {c : Char} (h : c.isDigit = true) :
    digitValue? c = some (c.toNat - '0'.toNat) := by
  have hbounds : 0x30 ≤ c.toNat ∧ c.toNat ≤ 0x39 := by
    simp only [Char.isDigit, Bool.and_eq_true, decide_eq_true_eq, ge_iff_le,
      UInt32.le_iff_toNat_le] at h
    exact h
  have hfind : zeroDigits.find? (fun z => z ≤ c.toNat && c.toNat < z + 10) = some 0x30 := by
    refine List.find?_cons_of_pos ?_
    simp only [Bool.and_eq_true, decide_eq_true_eq]
    omega
  rw [digitValue?, hfind]
  rfl

theorem isDigit_of_isDigit {c : Char} (h : c.isDigit = true) : isDigit c = true := by
  rw [isDigit, digitValue?_of_isDigit h, Option.isSome_some]

theorem isDigit_point : isDigit '.' = false := by
  decide

theorem digitsValue_eq_ofDigitChars {cs : List Char} (h : ∀ c ∈ cs, c.isDigit = true) :
    digitsValue cs = Nat.ofDigitChars 10 cs 0 := by
  rw [digitsValue, Nat.ofDigitChars]
  refine List.foldl_ext _ _ 0 fun n c hc => ?_
  rw [digitValue?_of_isDigit (h c hc), Option.getD_some]

end Text

namespace Lexeme

open Text (isDigit)

/-- What may follow any text without a change to the lexemes before it: a text that does not begin with
a digit or a point. -/
def Apart (rest : List Char) : Prop :=
  ∀ c ∈ rest.head?, isDigit c = false ∧ c ≠ '.'

theorem takeWhile_append_of_apart {rest : List Char} (h : Apart rest) (cs : List Char) :
    (cs ++ rest).takeWhile isDigit = cs.takeWhile isDigit := by
  have hrest : rest.takeWhile isDigit = [] := by
    cases rest with
    | nil => rfl
    | cons c rest => simp [(h c rfl).1]
  rw [List.takeWhile_append, hrest, List.append_nil]
  split_ifs with hlength
  · exact ((List.takeWhile_prefix _).eq_of_length hlength).symm
  · rfl

theorem dropWhile_append_of_apart {rest : List Char} (h : Apart rest) (cs : List Char) :
    (cs ++ rest).dropWhile isDigit = cs.dropWhile isDigit ++ rest := by
  have hrest : rest.dropWhile isDigit = rest := by
    cases rest with
    | nil => rfl
    | cons c rest => simp [(h c rfl).1]
  rw [List.dropWhile_append, hrest]
  split_ifs with hempty
  · rw [List.isEmpty_iff.1 hempty, List.nil_append]
  · rfl

theorem fraction?_cons_of_ne {c : Char} (h : c ≠ '.') (cs : List Char) :
    fraction? (c :: cs) = none := by
  unfold fraction?
  split
  · next heq => exact absurd (List.cons.inj heq).1 h
  · rfl

theorem fraction?_append_of_apart {rest : List Char} (h : Apart rest) (cs : List Char) :
    fraction? (cs ++ rest) = fraction? cs := by
  cases cs with
  | nil =>
      cases rest with
      | nil => rfl
      | cons c rest => exact fraction?_cons_of_ne (h c rfl).2 rest
  | cons c cs =>
      by_cases hpoint : c = '.'
      · subst hpoint
        simp only [List.cons_append, fraction?, takeWhile_append_of_apart h]
      · rw [List.cons_append, fraction?_cons_of_ne hpoint, fraction?_cons_of_ne hpoint]

theorem leadingNumber_append_of_apart {rest : List Char} (h : Apart rest) (cs : List Char) :
    leadingNumber (cs ++ rest) = leadingNumber cs := by
  rw [leadingNumber, takeWhile_append_of_apart h, dropWhile_append_of_apart h,
    fraction?_append_of_apart h, leadingNumber]

theorem afterNumber_append_of_apart {rest : List Char} (h : Apart rest) (cs : List Char) :
    afterNumber (cs ++ rest) = afterNumber cs ++ rest := by
  simp only [afterNumber, dropWhile_append_of_apart h, fraction?_append_of_apart h]
  cases hfraction : fraction? (cs.dropWhile isDigit) with
  | none => rfl
  | some digits =>
      have hne : cs.dropWhile isDigit ≠ [] := by
        intro hnil
        rw [hnil] at hfraction
        cases hfraction
      rw [List.drop_append_of_le_length (List.length_pos_iff.2 hne), dropWhile_append_of_apart h]

theorem scan_digit {c : Char} (h : isDigit c = true) (cs : List Char) :
    scan (c :: cs) = leadingNumber (c :: cs) :: scan (afterNumber (c :: cs)) := by
  rw [scan, dif_pos h]

/-- A text that does not begin with a digit or a point adds its own lexemes to those before it. -/
theorem scan_append {rest : List Char} (h : Apart rest) (cs : List Char) :
    scan (cs ++ rest) = scan cs ++ scan rest := by
  induction cs using scan.induct with
  | case1 => rw [List.nil_append, scan, List.nil_append]
  | case2 c cs hdigit _ ih =>
      rw [List.cons_append, scan_digit hdigit, scan_digit hdigit, ← List.cons_append,
        leadingNumber_append_of_apart h, afterNumber_append_of_apart h, ih, List.cons_append]
  | case3 c cs hdigit lexeme hsymbol ih =>
      rw [List.cons_append, scan, dif_neg hdigit, hsymbol, scan, dif_neg hdigit, hsymbol]
      exact congrArg (lexeme :: ·) ih
  | case4 c cs hdigit hsymbol ih =>
      rw [List.cons_append, scan, dif_neg hdigit, hsymbol, scan, dif_neg hdigit, hsymbol]
      exact ih

theorem apart_nil : Apart [] := by
  rintro c ⟨⟩

theorem apart_space (rest : List Char) : Apart (' ' :: rest) := by
  rintro c ⟨⟩
  decide

/-- A symbol is neither a digit nor a point. -/
theorem apart_of_symbol {c : Char} {lexeme : Lexeme} (h : ofSymbol? c = some lexeme)
    (rest : List Char) : Apart (c :: rest) := by
  rintro c ⟨⟩
  unfold ofSymbol? at h
  split_ifs at h with hopening hclosing
  · rw [hopening]
    decide
  · rw [hclosing]
    decide
  · obtain ⟨op, hop, -⟩ := Option.map_eq_some_iff.1 h
    rw [Operator.ofSymbol?_eq_some_iff.1 hop]
    cases op <;> decide

theorem scan_symbol {c : Char} {lexeme : Lexeme} (h : ofSymbol? c = some lexeme) (rest : List Char) :
    scan (c :: rest) = lexeme :: scan rest := by
  have hdigit := (apart_of_symbol h rest c rfl).1
  rw [scan, dif_neg (by rw [hdigit]; exact Bool.false_ne_true), h]

theorem scan_skipped {c : Char} (hdigit : isDigit c = false) (hsymbol : ofSymbol? c = none)
    (rest : List Char) : scan (c :: rest) = scan rest := by
  rw [scan, dif_neg (by rw [hdigit]; exact Bool.false_ne_true), hsymbol]

theorem scan_space (rest : List Char) : scan (' ' :: rest) = scan rest :=
  scan_skipped (apart_space rest ' ' rfl).1 rfl rest

theorem ofSymbol?_symbol (op : Operator) : ofSymbol? op.symbol = some (operator op) := by
  cases op <;> rfl

theorem apart_symbol (op : Operator) (rest : List Char) : Apart (op.symbol :: rest) :=
  apart_of_symbol (ofSymbol?_symbol op) rest

theorem scan_operator (op : Operator) (rest : List Char) :
    scan (op.symbol :: rest) = operator op :: scan rest :=
  scan_symbol (ofSymbol?_symbol op) rest

theorem takeWhile_digits (d : Digits) (rest : List Char) :
    (d.chars ++ rest).takeWhile isDigit = d.chars ++ rest.takeWhile isDigit :=
  List.takeWhile_append_of_pos fun c hc => Text.isDigit_of_isDigit (d.isDigit_of_mem c hc)

theorem dropWhile_digits (d : Digits) (rest : List Char) :
    (d.chars ++ rest).dropWhile isDigit = rest.dropWhile isDigit :=
  List.dropWhile_append_of_pos fun c hc => Text.isDigit_of_isDigit (d.isDigit_of_mem c hc)

theorem fraction?_digits (d : Digits) : fraction? ('.' :: d.chars) = some d.chars := by
  have hdigits := takeWhile_digits d []
  rw [List.append_nil, List.takeWhile_nil, List.append_nil] at hdigits
  rw [fraction?, hdigits, if_neg (by rw [List.isEmpty_iff]; exact d.ne_nil)]

/-- A numeral is one lexeme, with nothing left after it. -/
theorem leadingNumber_numeral (n : Numeral) :
    leadingNumber n.text = number n.whole.chars (n.fraction.map Digits.chars) ∧
      afterNumber n.text = [] := by
  have hpoint := Text.isDigit_point
  obtain ⟨whole, fraction⟩ := n
  have htake := takeWhile_digits whole []
  have hdrop := dropWhile_digits whole []
  rw [List.append_nil] at htake hdrop
  cases fraction with
  | none => simp [Numeral.text, leadingNumber, afterNumber, htake, hdrop, fraction?]
  | some places =>
      have hplaces := dropWhile_digits places []
      rw [List.append_nil] at hplaces
      have hrest : ('.' :: places.chars).dropWhile isDigit = '.' :: places.chars := by
        rw [List.dropWhile_cons, hpoint, if_neg Bool.false_ne_true]
      have hnone : ('.' :: places.chars).takeWhile isDigit = [] := by
        rw [List.takeWhile_cons, hpoint, if_neg Bool.false_ne_true]
      simp only [Numeral.text, leadingNumber, afterNumber, takeWhile_digits, dropWhile_digits, hrest,
        hnone, fraction?_digits, List.drop_one, List.tail_cons, hplaces, List.append_nil,
        Option.map_some, List.dropWhile_nil, and_self]

theorem scan_numeral (n : Numeral) :
    scan n.text = [number n.whole.chars (n.fraction.map Digits.chars)] := by
  obtain ⟨hleading, hafter⟩ := leadingNumber_numeral n
  obtain ⟨c, cs, hwhole⟩ := List.exists_cons_of_ne_nil n.whole.ne_nil
  have hdigit : isDigit c = true :=
    Text.isDigit_of_isDigit (n.whole.isDigit_of_mem c (by rw [hwhole]; exact List.mem_cons_self))
  rw [Numeral.text, hwhole, List.cons_append] at hleading hafter ⊢
  rw [scan_digit hdigit, hleading, hafter, scan]

theorem token_numeral (n : Numeral) :
    token (number n.whole.chars (n.fraction.map Digits.chars)) = .number n.value := by
  have hdigits : ∀ c ∈ n.whole.chars ++ n.places, c.isDigit = true := by
    intro c hc
    rcases List.mem_append.1 hc with hc | hc
    · exact n.whole.isDigit_of_mem c hc
    · cases hfraction : n.fraction with
      | none =>
          rw [Numeral.places, hfraction] at hc
          cases hc
      | some places =>
          rw [Numeral.places, hfraction] at hc
          exact places.isDigit_of_mem c hc
  rw [token, Numeral.value, ← Text.digitsValue_eq_ofDigitChars hdigits, Numeral.places]

end Lexeme
end Reckoner
