import Mathlib.Tactic.IntervalCases
import Reckoner.Proofs.InfixGrammar
import Reckoner.Proofs.LexemeSegments

/-! Why a text is refused. Its characters alone tell whether it is an invalid expression: it is empty, or
has a character that no expression holds, or none that is part of a lexeme. Every other text has tokens,
and is malformed exactly if their postfix sequence is the post-order of no tree. Neither the scan nor the
way to postfix order loses an operator, so a text that evaluates has a step for each one that it holds
(`evaluation_errors`). -/

namespace Reckoner

open Text (isDigit)

namespace Expression

open Lexeme (isSignificant isSignificant_point symbols)

/-- The characters that expressions are made of. -/
def alphabet : List Char :=
  "0123456789+-*/.() ".toList

theorem mem_digits_of_isDigit {c : Char} (h : c.isDigit = true) : c ∈ "0123456789".toList := by
  obtain ⟨hleast, hmost⟩ : 48 ≤ c.toNat ∧ c.toNat ≤ 57 := by
    simpa [Char.isDigit, UInt32.le_iff_toNat_le] using h
  rw [← Char.ofNat_toNat c]
  interval_cases c.toNat <;> decide

theorem isAllowed_iff {c : Char} : isAllowed c = true ↔ c ∈ alphabet := by
  constructor
  · intro h
    have halphabet : alphabet = "0123456789".toList ++ allowedSymbols := by decide
    rw [halphabet, List.mem_append]
    exact (Bool.or_eq_true_iff.1 h).imp mem_digits_of_isDigit List.contains_iff_mem.1
  · exact List.all_eq_true.1 (by decide : alphabet.all isAllowed = true) c

theorem all_isAllowed_iff {cs : List Char} : cs.all isAllowed = true ↔ ¬∃ c ∈ cs, c ∉ alphabet := by
  simp only [List.all_eq_true, isAllowed_iff, not_exists, not_and, not_not]

/-- Of the characters of expressions the space and the point alone need not be part of a lexeme. -/
theorem isSignificant_eq_false_iff {c : Char} (h : isAllowed c = true) :
    isSignificant c = false ↔ c = ' ' ∨ c = '.' := by
  constructor
  · intro hnone
    obtain ⟨hdigit, hsymbol⟩ := Bool.or_eq_false_iff.1 hnone
    have hmem : c ∈ allowedSymbols := by
      rcases Bool.or_eq_true_iff.1 h with hascii | hmem
      · rw [Text.isDigit_of_isDigit hascii] at hdigit
        cases hdigit
      · exact List.contains_iff_mem.1 hmem
    have hall : allowedSymbols.all (fun c => symbols.contains c || decide (c = ' ' ∨ c = '.')) = true := by
      decide
    have hc := List.all_eq_true.1 hall c hmem
    rw [hsymbol, Bool.false_or] at hc
    exact of_decide_eq_true hc
  · rintro (rfl | rfl)
    · decide
    · exact isSignificant_point

end Expression

namespace Operator

/-- The characters of the four operators. -/
def symbols : List Char :=
  "+-*/".toList

theorem symbol_mem_symbols (op : Operator) : op.symbol ∈ symbols := by
  cases op <;> decide

/-- How many of the characters are operators. -/
def count (cs : List Char) : Nat :=
  cs.countP (· ∈ symbols)

theorem count_append (cs ds : List Char) : count (cs ++ ds) = count cs + count ds :=
  List.countP_append

theorem count_symbol_cons (op : Operator) (cs : List Char) : count (op.symbol :: cs) = count cs + 1 :=
  List.countP_cons_of_pos (decide_eq_true op.symbol_mem_symbols)

theorem count_cons {c : Char} (h : c ∉ symbols) (cs : List Char) : count (c :: cs) = count cs :=
  List.countP_cons_of_neg (mt of_decide_eq_true h)

end Operator

namespace Lexeme

open Postfix (operatorCount itemsOf)

variable {c : Char} {cs : List Char} {segments : List Segment} {l : Lexeme}

theorem not_mem_symbols_of_isDigit (h : isDigit c = true) : c ∉ Operator.symbols := by
  intro hmem
  have hall : Operator.symbols.all (fun c => !isDigit c) = true := by decide
  have hc := List.all_eq_true.1 hall c hmem
  rw [h] at hc
  cases hc

theorem not_mem_symbols_of_ofSymbol? (h : ofSymbol? c = none) : c ∉ Operator.symbols := by
  intro hmem
  have hall : Operator.symbols.all (fun c => (ofSymbol? c).isSome) = true := by decide
  have hc := List.all_eq_true.1 hall c hmem
  rw [h] at hc
  cases hc

/-- What a character makes that is a lexeme of its own: an operator, or a parenthesis. -/
theorem ofSymbol?_cases (h : ofSymbol? c = some l) :
    (∃ op : Operator, c = op.symbol ∧ l = .operator op) ∨
      (c ∉ Operator.symbols ∧ l.token.item? = none) := by
  unfold ofSymbol? at h
  split_ifs at h with hopening hclosing
  · cases h
    rw [hopening]
    exact .inr ⟨by decide, rfl⟩
  · cases h
    rw [hclosing]
    exact .inr ⟨by decide, rfl⟩
  · obtain ⟨op, hop, rfl⟩ := Option.map_eq_some_iff.1 h
    exact .inl ⟨op, Operator.ofSymbol?_eq_some_iff.1 hop, rfl⟩

theorem count_digits (h : IsRun cs) : Operator.count cs = 0 :=
  List.countP_eq_zero.2 fun c hc =>
    mt of_decide_eq_true (not_mem_symbols_of_isDigit (h.isDigit_of_mem c hc))

/-- The operators among the characters of a text are those among its tokens. -/
theorem Divided.operatorCount_eq (h : Divided cs segments) :
    operatorCount (itemsOf ((segments.filterMap Segment.lexeme?).map token)) = Operator.count cs := by
  induction h with
  | nil => rfl
  | whole hdigits _ _ _ ih =>
      rw [Operator.count_append, count_digits hdigits, Nat.zero_add, ← ih]
      rfl
  | fraction hdigits hplaces _ _ ih =>
      rw [Operator.count_append, Operator.count_cons (by decide), Operator.count_append,
        count_digits hdigits, count_digits hplaces, Nat.zero_add, Nat.zero_add, ← ih]
      rfl
  | @symbol c l cs segments _ hsymbol _ ih =>
      have hcount :
          operatorCount (itemsOf (((Segment.lexeme l :: segments).filterMap Segment.lexeme?).map token)) =
            operatorCount l.token.item?.toList + Operator.count cs := by
        rw [← ih]
        exact (congrArg operatorCount (Postfix.itemsOf_cons l.token _)).trans List.countP_append
      rw [hcount]
      rcases ofSymbol?_cases hsymbol with ⟨op, rfl, rfl⟩ | ⟨hnot, hnone⟩
      · rw [Operator.count_symbol_cons, Nat.add_comm]
        rfl
      · rw [hnone, Operator.count_cons hnot]
        exact Nat.zero_add _
  | skipped _ hsymbol _ ih =>
      rw [Operator.count_cons (not_mem_symbols_of_ofSymbol? hsymbol), ← ih]
      rfl

theorem operatorCount_tokens (cs : List Char) :
    operatorCount (itemsOf ((scan cs).map token)) = Operator.count cs := by
  obtain ⟨segments, hdivided, hlexemes⟩ := exists_divided cs
  rw [← hlexemes]
  exact hdivided.operatorCount_eq

end Lexeme

namespace Expression

open Lexeme (scan)

variable {s : String}

/-- The texts that are invalid expressions: the empty one, those with a character that no expression
holds, and those of nothing but spaces and points. -/
def IsInvalid (s : String) : Prop :=
  s = "" ∨ (∃ c ∈ s.toList, c ∉ alphabet) ∨ ∀ c ∈ s.toList, c = ' ' ∨ c = '.'

theorem evaluate_of_isInvalid (h : IsInvalid s) :
    evaluate s = .error (.badCharacter s) ∨ evaluate s = .error (.noTokens s) := by
  by_cases hallowed : s.toList ≠ [] ∧ s.toList.all isAllowed = true
  · right
    have hempty : s ≠ "" := fun heq => hallowed.1 (by rw [heq]; rfl)
    have hblank := (h.resolve_left hempty).resolve_left (all_isAllowed_iff.1 hallowed.2)
    have hall := List.all_eq_true.1 hallowed.2
    have hnone : tokens s = .error (.noTokens s) :=
      tokens_of_insignificant fun c hc => (isSignificant_eq_false_iff (hall c hc)).2 (hblank c hc)
    rw [evaluate, validate_of_allowed hallowed.1 hall, hnone]
    rfl
  · exact .inl (evaluate_of_not_allowed hallowed)

/-- Every other text has tokens, and is evaluated from their postfix sequence. -/
theorem evaluate_of_not_isInvalid (h : ¬IsInvalid s) :
    tokens s = .ok ((scan s.toList).map Lexeme.token) ∧
      evaluate s = Postfix.evaluate (Postfix.ofTokens ((scan s.toList).map Lexeme.token)) := by
  obtain ⟨hempty, hbad, hblank⟩ : s ≠ "" ∧ (¬∃ c ∈ s.toList, c ∉ alphabet) ∧
      ¬∀ c ∈ s.toList, c = ' ' ∨ c = '.' := by
    simpa only [IsInvalid, not_or] using h
  have hne : s.toList ≠ [] := fun hnil => hempty (String.toList_inj.1 (hnil.trans rfl))
  have hall := List.all_eq_true.1 (all_isAllowed_iff.2 hbad)
  have hsome : ∃ c ∈ s.toList, Lexeme.isSignificant c = true := by
    by_contra hnone
    refine hblank fun c hc => (isSignificant_eq_false_iff (hall c hc)).1 ?_
    exact Bool.eq_false_iff.2 fun hsignificant => hnone ⟨c, hc, hsignificant⟩
  have htokens := tokens_of_significant hsome
  exact ⟨htokens, evaluate_of_tokens (validate_of_allowed hne hall) htokens⟩

theorem evaluate_ok_iff (h : ¬IsInvalid s) :
    (∃ e, evaluate s = .ok e) ↔
      ∃ t : ExpressionTree, t.postOrder = Postfix.ofTokens ((scan s.toList).map Lexeme.token) := by
  rw [(evaluate_of_not_isInvalid h).2]
  constructor
  · rintro ⟨e, he⟩
    exact Postfix.exists_postOrder_of_evaluate he
  · rintro ⟨t, ht⟩
    rw [← ht, Postfix.evaluate_postOrder]
    exact ⟨_, rfl⟩

theorem not_isInvalid_of_evaluate {e : Evaluation} (h : evaluate s = .ok e) : ¬IsInvalid s := by
  intro hinvalid
  rcases evaluate_of_isInvalid hinvalid with herror | herror <;> rw [herror] at h <;> cases h

theorem steps_length_eq_count {e : Evaluation} (h : evaluate s = .ok e) :
    e.steps.length = Operator.count s.toList := by
  have htokens := (evaluate_of_not_isInvalid (not_isInvalid_of_evaluate h)).1
  obtain ⟨t, ht, rfl⟩ := exists_tree_of_evaluate h (exists_tokens_of_evaluate h).1 htokens
  calc t.steps.length = Postfix.operatorCount (Postfix.ofTokens ((scan s.toList).map Lexeme.token)) := by
        rw [Postfix.steps_length_eq_operatorCount, ht]
    _ = Postfix.operatorCount (Postfix.itemsOf ((scan s.toList).map Lexeme.token)) :=
        (Postfix.ofTokens_perm _).countP_eq _
    _ = Operator.count s.toList := Lexeme.operatorCount_tokens s.toList

/-- What comes of any text: an answer, or one of four errors. The error is that of an invalid expression
exactly if the text is empty, has a character that no expression holds, or has nothing but spaces and points.
Any other text has tokens, and its error is that of a malformed expression exactly if their postfix sequence
is the post-order of no tree. An answer has as many steps as the text has operators. -/
theorem evaluation_errors (s : String) :
    ((∃ e, evaluate s = .ok e) ∨ ∃ err, evaluate s = .error err ∧
      (err = .badCharacter s ∨ err = .noTokens s ∨
        (∃ op, err = .missingOperands op) ∨ ∃ count, err = .leftOperands count)) ∧
    ((∃ err, evaluate s = .error err ∧ err.kind = "InvalidExpression") ↔ IsInvalid s) ∧
    (¬IsInvalid s → ∃ ts, tokens s = .ok ts ∧
      ((∃ err, evaluate s = .error err ∧ err.kind = "MalformedExpression") ↔
        ¬∃ t : ExpressionTree, t.postOrder = Postfix.ofTokens ts)) ∧
    ∀ e, evaluate s = .ok e → e.steps.length = Operator.count s.toList := by
  refine ⟨?_, ⟨?_, ?_⟩, ?_, fun e => steps_length_eq_count⟩
  · by_cases hinvalid : IsInvalid s
    · rcases evaluate_of_isInvalid hinvalid with herror | herror
      · exact .inr ⟨_, herror, .inl rfl⟩
      · exact .inr ⟨_, herror, .inr (.inl rfl)⟩
    · rw [(evaluate_of_not_isInvalid hinvalid).2]
      cases hresult : Postfix.evaluate _ with
      | ok e => exact .inl ⟨e, rfl⟩
      | error err =>
          refine .inr ⟨err, rfl, .inr (.inr ?_)⟩
          rcases Postfix.blame_of_evaluate hresult with ⟨-, op, -, herr⟩ | ⟨-, count, -, herr⟩
          · exact .inl ⟨op, herr⟩
          · exact .inr ⟨count, herr⟩
  · rintro ⟨err, herror, hkind⟩
    by_contra hinvalid
    rw [(evaluate_of_not_isInvalid hinvalid).2] at herror
    rw [Postfix.kind_of_evaluate herror] at hkind
    exact absurd hkind (by decide)
  · intro hinvalid
    rcases evaluate_of_isInvalid hinvalid with herror | herror
    · exact ⟨_, herror, rfl⟩
    · exact ⟨_, herror, rfl⟩
  · intro hinvalid
    obtain ⟨htokens, heval⟩ := evaluate_of_not_isInvalid hinvalid
    refine ⟨_, htokens, ?_⟩
    rw [← evaluate_ok_iff hinvalid]
    constructor
    · rintro ⟨err, herror, -⟩ ⟨e, he⟩
      rw [herror] at he
      cases he
    · intro hnone
      cases hresult : evaluate s with
      | ok e => exact absurd ⟨e, hresult⟩ hnone
      | error err =>
          rw [heval] at hresult
          exact ⟨err, rfl, Postfix.kind_of_evaluate hresult⟩

end Expression

end Reckoner
