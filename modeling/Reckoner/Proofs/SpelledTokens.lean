import Reckoner.Proofs.InfixArrangement

/-! Tokens written out and read back. Any sequence of numerals, operators and parentheses, grammatical or
not, may be spelled with spaces anywhere between its words, as long as two numerals do not touch. No word
then runs into the next: what follows a numeral begins with a space, an operator or a parenthesis, and every
other word is a single character. So the tokens of the text are those of its words (`tokens_spelled`). -/

namespace Reckoner

/-- A token as it is written: a numeral, an operator or a parenthesis. -/
inductive Word where
  | numeral (n : Numeral)
  | operator (op : Operator)
  | opening
  | closing

namespace Word

def isNumeral : Word → Bool
  | numeral _ => true
  | _ => false

def text : Word → List Char
  | numeral n => n.text
  | operator op => [op.symbol]
  | opening => ['(']
  | closing => [')']

def lexeme : Word → Lexeme
  | numeral n => .number n.whole.chars (n.fraction.map Digits.chars)
  | operator op => .operator op
  | opening => .opening
  | closing => .closing

/-- The token that a word stands for; a numeral stands for the double nearest to what it writes. -/
def token : Word → Token
  | numeral n => .number n.value
  | operator op => .operator op
  | opening => .opening
  | closing => .closing

theorem token_lexeme (w : Word) : w.lexeme.token = w.token := by
  cases w with
  | numeral n => exact Lexeme.token_numeral n
  | _ => rfl

/-- The texts that spell words one after another: with any number of spaces before, between and after
them, and at least one between two numerals. -/
inductive Spelled : List Word → List Char → Prop
  | nil : Spelled [] []
  | space {ws : List Word} {cs : List Char} : Spelled ws cs → Spelled ws (' ' :: cs)
  | word {ws : List Word} {cs : List Char} (w : Word) :
      (w.isNumeral = true → (∃ next ∈ ws.head?, next.isNumeral = true) → cs.head? = some ' ') →
      Spelled ws cs → Spelled (w :: ws) (w.text ++ cs)

open Lexeme (Apart scan)

theorem apart_text {w : Word} (h : w.isNumeral = false) (cs : List Char) : Apart (w.text ++ cs) := by
  cases w with
  | numeral n => cases h
  | operator op => exact Lexeme.apart_symbol op cs
  | opening => exact Lexeme.apart_of_symbol rfl cs
  | closing => exact Lexeme.apart_of_symbol rfl cs

/-- A spelling that begins with a digit begins with a numeral. -/
theorem Spelled.apart {ws : List Word} {cs : List Char} (h : Spelled ws cs)
    (hspace : (∃ next ∈ ws.head?, next.isNumeral = true) → cs.head? = some ' ') : Apart cs := by
  cases h with
  | nil => exact Lexeme.apart_nil
  | space => exact Lexeme.apart_space _
  | @word ws cs w _ _ =>
      cases hnumeral : w.isNumeral with
      | false => exact apart_text hnumeral cs
      | true =>
          have hhead := hspace ⟨w, rfl, hnumeral⟩
          obtain ⟨rest, hrest⟩ := List.head?_eq_some_iff.mp hhead
          rw [hrest]
          exact Lexeme.apart_space rest

/-- A word is one lexeme when what follows does not add to it. -/
theorem scan_text (w : Word) {cs : List Char} (h : w.isNumeral = true → Apart cs) :
    scan (w.text ++ cs) = w.lexeme :: scan cs := by
  cases w with
  | numeral n =>
      rw [text, Lexeme.scan_append (h rfl), Lexeme.scan_numeral]
      rfl
  | operator op => exact Lexeme.scan_operator op cs
  | opening => exact Lexeme.scan_symbol rfl cs
  | closing => exact Lexeme.scan_symbol rfl cs

theorem Spelled.scan_eq {ws : List Word} {cs : List Char} (h : Spelled ws cs) :
    scan cs = ws.map lexeme := by
  induction h with
  | nil => rw [scan, List.map_nil]
  | space _ ih => rw [Lexeme.scan_space, ih]
  | word w hspace hrest ih =>
      rw [scan_text w fun hnumeral => hrest.apart (hspace hnumeral), ih, List.map_cons]

end Word

namespace Expression

/-- A text that spells words has their tokens, in order and no others. -/
theorem tokens_spelled {ws : List Word} {s : String} (hne : ws ≠ [])
    (h : Word.Spelled ws s.toList) : tokens s = .ok (ws.map Word.token) := by
  have hmap : (Lexeme.scan s.toList).map Lexeme.token = ws.map Word.token := by
    rw [h.scan_eq, List.map_map]
    exact List.map_congr_left fun w _ => w.token_lexeme
  rw [tokens_of_ne_nil, hmap]
  rw [hmap]
  exact fun hnil => hne (List.map_eq_nil_iff.mp hnil)

theorem tokens_spelled_out_of_order :
    let ws : List Word := [.closing, .numeral ⟨.ofNat 1, none⟩,
      .numeral ⟨.ofNat 2, some (.ofNat 5)⟩, .operator .mul]
    ws ≠ [] ∧ Word.Spelled ws ")1  2.5*".toList ∧ tokens ")1  2.5*" = .ok (ws.map Word.token) := by
  intro ws
  have hproduct : Word.Spelled [.numeral ⟨.ofNat 2, some (.ofNat 5)⟩, .operator .mul] "2.5*".toList :=
    .word (.numeral _) (by rintro - ⟨w, ⟨⟩, ⟨⟩⟩) (.word (.operator .mul) (by rintro ⟨⟩) .nil)
  have hspelled : Word.Spelled ws ")1  2.5*".toList :=
    .word .closing (by rintro ⟨⟩) (.word (.numeral ⟨.ofNat 1, none⟩) (fun _ _ => rfl)
      (.space (.space hproduct)))
  have hne : ws ≠ [] := List.cons_ne_nil _ _
  exact ⟨hne, hspelled, tokens_spelled hne hspelled⟩

end Expression
end Reckoner
