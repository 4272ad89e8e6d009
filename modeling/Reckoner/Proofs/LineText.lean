import Mathlib.Data.List.Basic
import Reckoner.Expression.Error
import Reckoner.Number.Notation
import Reckoner.Text.Blank

/-! Texts that stay on one line. Lines that hold no line break, each ended by a line feed, are found
again when their text is split (`lines_lined`). The lines that splitting finds hold no break themselves,
a quoted text never does, and so neither does the message of a refused calculation nor the display text
of a number, which is written with very few characters. -/

namespace Reckoner
namespace Text

/-- A text without a line break in it. -/
def IsLine (cs : List Char) : Prop :=
  ∀ c ∈ cs, isLineBreak c = false

/-- The text of lines, each ended by a line feed. -/
def lined (ls : List (List Char)) : List Char :=
  ls.flatMap fun l => l ++ ['\n']

theorem isLine_append {cs ds : List Char} : IsLine (cs ++ ds) ↔ IsLine cs ∧ IsLine ds :=
  List.forall_mem_append

theorem isLine_cons {c : Char} {cs : List Char} :
    IsLine (c :: cs) ↔ isLineBreak c = false ∧ IsLine cs :=
  List.forall_mem_cons

theorem isLine_nil : IsLine [] :=
  fun _ hc => by cases hc

theorem isLine_singleton {c : Char} : IsLine [c] ↔ isLineBreak c = false :=
  List.forall_mem_singleton

theorem isLine_of_all {cs : List Char} (h : cs.all (fun c => !isLineBreak c) = true) : IsLine cs := by
  intro c hc
  simpa using List.all_eq_true.1 h c hc

theorem isLineBreak_of_isDigit {c : Char} (h : c.isDigit = true) : isLineBreak c = false := by
  have hbounds : 0x30 ≤ c.toNat ∧ c.toNat ≤ 0x39 := by
    simp only [Char.isDigit, Bool.and_eq_true, decide_eq_true_eq, ge_iff_le,
      UInt32.le_iff_toNat_le] at h
    exact h
  have hcodes : ∀ n ∈ lineBreakCodes, n < 0x30 ∨ 0x39 < n := by decide
  rw [isLineBreak, ← Bool.not_eq_true, List.contains_iff_mem]
  intro hmem
  have := hcodes _ hmem
  omega

theorem isLine_toDigits (n : Nat) : IsLine (Nat.toDigits 10 n) :=
  fun _ hc => isLineBreak_of_isDigit (Nat.isDigit_of_mem_toDigits (by decide) (by decide) hc)

theorem lines_cons_of_not_break {c : Char} (h : isLineBreak c = false) (rest : List Char) :
    lines (c :: rest) =
      match lines rest with
      | [] => [[c]]
      | line :: more => (c :: line) :: more := by
  have hreturn : c ≠ '\r' := by
    rintro rfl
    exact absurd h (by decide)
  rw [lines.eq_def]
  split
  · next heq => cases heq
  · next heq => exact absurd (List.cons.inj heq).1 hreturn
  · next heq =>
    cases heq
    rw [h]
    rfl

theorem lines_append_break {l : List Char} (h : IsLine l) (rest : List Char) :
    lines (l ++ '\n' :: rest) = l :: lines rest := by
  induction l with
  | nil =>
      rw [List.nil_append, lines.eq_def]
      rfl
  | cons c l ih =>
      obtain ⟨hc, hl⟩ := isLine_cons.1 h
      rw [List.cons_append, lines_cons_of_not_break hc, ih hl]

theorem lined_cons (l : List Char) (ls : List (List Char)) :
    lined (l :: ls) = l ++ '\n' :: lined ls := by
  rw [lined, List.flatMap_cons, List.append_assoc]
  rfl

theorem lines_lined {ls : List (List Char)} (h : ∀ l ∈ ls, IsLine l) : lines (lined ls) = ls := by
  induction ls with
  | nil => rfl
  | cons l ls ih =>
      obtain ⟨hl, hls⟩ := List.forall_mem_cons.1 h
      rw [lined_cons, lines_append_break hl, ih hls]

theorem isLine_of_mem_lines {cs l : List Char} (h : l ∈ lines cs) : IsLine l := by
  induction cs using lines.induct generalizing l with
  | case1 =>
      rw [lines] at h
      cases h
  | case2 rest ih =>
      rw [lines] at h
      rcases List.mem_cons.1 h with rfl | h
      · exact isLine_nil
      · exact ih h
  | case3 c rest hnot hbreak ih =>
      rw [lines, if_pos hbreak] at h
      · rcases List.mem_cons.1 h with rfl | h
        · exact isLine_nil
        · exact ih h
      · exact hnot
  | case4 c rest hnot hbreak hnil ih =>
      rw [lines_cons_of_not_break (Bool.not_eq_true _ ▸ hbreak), hnil] at h
      rw [List.mem_singleton.1 h]
      exact isLine_singleton.2 (Bool.not_eq_true _ ▸ hbreak)
  | case5 c rest hnot hbreak line more hlines ih =>
      rw [lines_cons_of_not_break (Bool.not_eq_true _ ▸ hbreak), hlines] at h
      rcases List.mem_cons.1 h with rfl | h
      · refine isLine_cons.2 ⟨Bool.not_eq_true _ ▸ hbreak, ih ?_⟩
        rw [hlines]
        exact List.mem_cons_self
      · refine ih ?_
        rw [hlines]
        exact List.mem_cons_of_mem _ h

theorem mem_of_mem_trim {c : Char} {cs : List Char} (h : c ∈ trim cs) : c ∈ cs := by
  rw [trim, List.mem_reverse] at h
  have hdropped := (List.dropWhile_sublist _).subset h
  exact (List.dropWhile_sublist _).subset (List.mem_reverse.1 hdropped)

theorem isLine_of_mem_trimmedLines {cs l : List Char} (h : l ∈ trimmedLines cs) : IsLine l := by
  obtain ⟨line, hline, rfl⟩ := List.mem_map.1 (List.mem_of_mem_filter h)
  exact fun c hc => isLine_of_mem_lines hline c (mem_of_mem_trim hc)

theorem not_isLineBreak_of_isPrintable {c : Char} (h : isPrintable c = true) :
    isLineBreak c = false := by
  have hhidden : ∀ n ∈ lineBreakCodes, isPrintable (Char.ofNat n) = false := by decide +kernel
  rw [isLineBreak, ← Bool.not_eq_true, List.contains_iff_mem]
  intro hmem
  have hprintable := hhidden _ hmem
  rw [Char.ofNat_toNat, h] at hprintable
  cases hprintable

theorem isLine_toDigits_hex (n : Nat) : IsLine (Nat.toDigits 16 n) := by
  have hdigit : ∀ d < 16, isLineBreak (Nat.digitChar d) = false := by decide
  induction n using Nat.strongRecOn with
  | ind n ih =>
      rw [Nat.toDigits_eq_if (by decide)]
      split_ifs with hsmall
      · exact isLine_singleton.2 (hdigit n hsmall)
      · refine isLine_append.2 ⟨ih (n / 16) (Nat.div_lt_self (by omega) (by decide)), ?_⟩
        exact isLine_singleton.2 (hdigit _ (Nat.mod_lt n (by decide)))

theorem isLine_hexText (width n : Nat) : IsLine (hexText width n) := by
  refine isLine_append.2 ⟨fun c hc => ?_, isLine_toDigits_hex n⟩
  rw [List.eq_of_mem_replicate hc]
  rfl

theorem isLine_escape {mark : Char} (hmark : isLineBreak mark = false) (c : Char) :
    IsLine (escape mark c) := by
  have hslash : isLineBreak '\\' = false := rfl
  unfold escape
  split_ifs with hself hfeed hreturn htab hprintable hbyte hshort
  · refine isLine_cons.2 ⟨hslash, isLine_singleton.2 ?_⟩
    rw [Bool.or_eq_true, decide_eq_true_eq, decide_eq_true_eq] at hself
    rcases hself with rfl | rfl
    · exact hmark
    · exact hslash
  · exact isLine_cons.2 ⟨hslash, isLine_singleton.2 rfl⟩
  · exact isLine_cons.2 ⟨hslash, isLine_singleton.2 rfl⟩
  · exact isLine_cons.2 ⟨hslash, isLine_singleton.2 rfl⟩
  · exact isLine_singleton.2 (not_isLineBreak_of_isPrintable hprintable)
  · exact isLine_cons.2 ⟨hslash, isLine_cons.2 ⟨rfl, isLine_hexText _ _⟩⟩
  · exact isLine_cons.2 ⟨hslash, isLine_cons.2 ⟨rfl, isLine_hexText _ _⟩⟩
  · exact isLine_cons.2 ⟨hslash, isLine_cons.2 ⟨rfl, isLine_hexText _ _⟩⟩

/-- Whatever a text holds, it stays on one line in quotes. -/
theorem isLine_quoted (s : String) : IsLine (quoted s).toList := by
  have hmark : isLineBreak (quoteMark s.toList) = false := by
    unfold quoteMark
    split_ifs <;> rfl
  rw [quoted, String.toList_ofList]
  refine isLine_append.2 ⟨isLine_cons.2 ⟨hmark, fun c hc => ?_⟩, isLine_singleton.2 hmark⟩
  obtain ⟨d, -, hd⟩ := List.mem_flatMap.1 hc
  exact isLine_escape hmark d c hd

end Text

namespace Decimal

/-- The characters that numbers are shown with: digits, and few others. -/
def IsShown (c : Char) : Prop :=
  c.isDigit = true ∨ c ∈ "+-.eINafinty".toList

instance : DecidablePred IsShown :=
  fun _ => inferInstanceAs (Decidable (_ ∨ _))

theorem isShown_of_all {word : List Char} (h : word.all (fun c => decide (IsShown c)) = true)
    {c : Char} (hc : c ∈ word) : IsShown c :=
  of_decide_eq_true (List.all_eq_true.1 h c hc)

theorem isDigit_of_mem_digitText {n : Nat} {c : Char} (h : c ∈ digitText n) : c.isDigit = true :=
  Nat.isDigit_of_mem_toDigits (by decide) (by decide) h

theorem isShown_digitText {n : Nat} {c : Char} (h : c ∈ digitText n) : IsShown c :=
  Or.inl (isDigit_of_mem_digitText h)

theorem isShown_exponentText {e : Int} {c : Char} (h : c ∈ exponentText e) : IsShown c := by
  rw [exponentText] at h
  rcases List.mem_cons.1 h with rfl | h
  · split_ifs <;> exact Or.inr (by decide)
  · split_ifs at h with hshort
    · rcases List.mem_cons.1 h with rfl | h
      · exact Or.inl rfl
      · exact isShown_digitText h
    · exact isShown_digitText h

theorem isShown_scientificText {digits : List Char} (hdigits : ∀ c ∈ digits, IsShown c) {place : Int}
    {c : Char} (h : c ∈ scientificText digits place) : IsShown c := by
  unfold scientificText at h
  split at h
  · cases h
  · simp only [List.mem_cons] at h
    rcases h with rfl | rfl | h
    · exact hdigits _ List.mem_cons_self
    · exact Or.inr (by decide)
    · exact isShown_exponentText h
  · simp only [List.mem_cons, List.mem_append, List.cons_append] at h
    rcases h with rfl | rfl | h | rfl | h
    · exact hdigits _ List.mem_cons_self
    · exact Or.inr (by decide)
    · exact hdigits _ (List.mem_cons_of_mem _ h)
    · exact Or.inr (by decide)
    · exact isShown_exponentText h

theorem isShown_positionalText {digits : List Char} (hdigits : ∀ c ∈ digits, IsShown c)
    {place : Nat} {c : Char} (h : c ∈ positionalText digits place) : IsShown c := by
  have hpadded : ∀ d ∈ digits ++ List.replicate (place + 1 - digits.length) '0', IsShown d := by
    intro d hd
    rcases List.mem_append.1 hd with hd | hd
    · exact hdigits d hd
    · rw [List.eq_of_mem_replicate hd]
      exact Or.inl rfl
  rw [positionalText] at h
  rcases List.mem_append.1 h with h | h
  · exact hpadded c (List.mem_of_mem_take h)
  · rcases List.mem_cons.1 h with rfl | h
    · exact Or.inr (by decide)
    · split_ifs at h with hempty
      · rw [List.mem_singleton.1 h]
        exact Or.inl rfl
      · exact hpadded c (List.mem_of_mem_drop h)

theorem isShown_text {d : Decimal} {c : Char} (h : c ∈ d.text) : IsShown c := by
  have hdigits : ∀ c ∈ digitText d.digits, IsShown c := fun _ hc => isShown_digitText hc
  simp only [text] at h
  split at h
  · split_ifs at h with hplace
    · exact isShown_positionalText hdigits h
    · exact isShown_scientificText hdigits h
  · split_ifs at h with hplace
    · simp only [List.mem_cons, List.mem_append, List.cons_append] at h
      rcases h with rfl | rfl | h | h
      · exact Or.inl rfl
      · exact Or.inr (by decide)
      · rw [List.eq_of_mem_replicate h]
        exact Or.inl rfl
      · exact hdigits c h
    · exact isShown_scientificText hdigits h

end Decimal

namespace Binary64

theorem isShown_signed {negative : Bool} {cs : List Char} (hcs : ∀ c ∈ cs, Decimal.IsShown c)
    {c : Char} (h : c ∈ signed negative cs) : Decimal.IsShown c := by
  rw [signed] at h
  split_ifs at h with hnegative
  · rcases List.mem_cons.1 h with rfl | h
    · exact Or.inr (by decide)
    · exact hcs c h
  · exact hcs c h

theorem isShown_display {x : Binary64} {c : Char} (h : c ∈ x.display.toList) :
    Decimal.IsShown c := by
  unfold display at h
  split at h
  · exact Decimal.isShown_of_all (by decide) h
  · split_ifs at h with hsign
    · exact Decimal.isShown_of_all (by decide) h
    · exact Decimal.isShown_of_all (by decide) h
  · split_ifs at h with hzero hwhole
    · exact Decimal.isShown_of_all (by decide) h
    · rw [String.toList_ofList] at h
      exact isShown_signed (fun _ => Decimal.isShown_digitText) h
    · rw [String.toList_ofList] at h
      exact isShown_signed (fun _ => Decimal.isShown_text) h

theorem not_mem_display {x : Binary64} {c : Char} (hdigit : c.isDigit = false)
    (hother : c ∉ "+-.eINafinty".toList) : c ∉ x.display.toList := by
  intro h
  rcases isShown_display h with hshown | hshown
  · rw [hdigit] at hshown
    cases hshown
  · exact hother hshown

theorem isLine_display (x : Binary64) : Text.IsLine x.display.toList := by
  intro c hc
  rcases isShown_display hc with hshown | hshown
  · exact Text.isLineBreak_of_isDigit hshown
  · exact Text.isLine_of_all (by decide) c hshown

end Binary64

theorem CalculationError.isLine_message (e : CalculationError) :
    Text.IsLine e.message.toList := by
  cases e with
  | badCharacter s =>
      change Text.IsLine ("Invalid expression: " ++ Text.quoted s).toList
      rw [String.toList_append]
      exact Text.isLine_append.2 ⟨Text.isLine_of_all (by decide), Text.isLine_quoted s⟩
  | noTokens s =>
      change Text.IsLine ("No tokens in expression: " ++ Text.quoted s).toList
      rw [String.toList_append]
      exact Text.isLine_append.2 ⟨Text.isLine_of_all (by decide), Text.isLine_quoted s⟩
  | unknownFunction name =>
      change Text.IsLine ("Unknown function: " ++ Text.quoted name).toList
      rw [String.toList_append]
      exact Text.isLine_append.2 ⟨Text.isLine_of_all (by decide), Text.isLine_quoted name⟩
  | missingOperands op =>
      change Text.IsLine ("Invalid expression (not enough operands for " ++
        Text.quoted (String.singleton op.symbol) ++ ")").toList
      rw [String.toList_append, String.toList_append]
      exact Text.isLine_append.2 ⟨Text.isLine_append.2 ⟨Text.isLine_of_all (by decide),
        Text.isLine_quoted _⟩, Text.isLine_of_all (by decide)⟩
  | leftOperands count =>
      change Text.IsLine ("Invalid expression (" ++ count.repr ++
        " operands left instead of 1)").toList
      rw [String.toList_append, String.toList_append, Nat.toList_repr]
      exact Text.isLine_append.2 ⟨Text.isLine_append.2 ⟨Text.isLine_of_all (by decide),
        Text.isLine_toDigits count⟩, Text.isLine_of_all (by decide)⟩

end Reckoner
