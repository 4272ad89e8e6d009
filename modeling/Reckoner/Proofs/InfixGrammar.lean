import Reckoner.Proofs.InfixBalance

/-! Which inputs are accepted, against the grammar of infix. A sentence of the grammar is accepted once
its parentheses have partners, and an input in which no operand stands directly beside another is
accepted only then (`evaluate_infix`). The count of values alone decides that: without two operands side
by side a surplus of one is only reached by operands and operators in turn. Where operands do stand side
by side the count can come out even so, as in a sequence that is postfix already. -/

namespace Reckoner

namespace Infix

/-- The kinds of phrases of the grammar. -/
inductive Kind where
  | expression
  | term
  | factor
  deriving DecidableEq

/-- The infix grammar, a constructor for each production. -/
inductive Derives : Kind → List Token → Prop
  | add {ts us : List Token} : Derives .expression ts → Derives .term us →
      Derives .expression (ts ++ .operator .add :: us)
  | sub {ts us : List Token} : Derives .expression ts → Derives .term us →
      Derives .expression (ts ++ .operator .sub :: us)
  | ofTerm {ts : List Token} : Derives .term ts → Derives .expression ts
  | mul {ts us : List Token} : Derives .term ts → Derives .factor us →
      Derives .term (ts ++ .operator .mul :: us)
  | div {ts us : List Token} : Derives .term ts → Derives .factor us →
      Derives .term (ts ++ .operator .div :: us)
  | ofFactor {ts : List Token} : Derives .factor ts → Derives .term ts
  | number (x : Binary64) : Derives .factor [.number x]
  | parenthesised {ts : List Token} : Derives .expression ts →
      Derives .factor (.opening :: ts ++ [.closing])

/-- The level of the places that a kind of phrase may take. -/
def Kind.level : Kind → Nat
  | expression => 1
  | term => 2
  | factor => 3

/-- A binary production joins the trees of its two parts. -/
theorem exists_phrase_operation {left right level : Nat} {op : Operator} {ts us : List Token}
    (hlevel : level ≤ op.precedence) (hleft : left = op.precedence) (hright : right = op.precedence + 1)
    (hl : ∃ t, Phrase left t ts) (hr : ∃ t, Phrase right t us) :
    ∃ t, Phrase level t (ts ++ .operator op :: us) := by
  subst hleft hright
  obtain ⟨t, ht⟩ := hl
  obtain ⟨u, hu⟩ := hr
  exact ⟨.operation t op u, .operation hlevel ht hu⟩

theorem exists_phrase {kind : Kind} {ts : List Token} (h : Derives kind ts) :
    ∃ t, Phrase kind.level t ts := by
  induction h with
  | add _ _ ihl ihr => exact exists_phrase_operation (by decide) rfl rfl ihl ihr
  | sub _ _ ihl ihr => exact exists_phrase_operation (by decide) rfl rfl ihl ihr
  | mul _ _ ihl ihr => exact exists_phrase_operation (by decide) rfl rfl ihl ihr
  | div _ _ ihl ihr => exact exists_phrase_operation (by decide) rfl rfl ihl ihr
  | ofTerm _ ih =>
      obtain ⟨t, ht⟩ := ih
      exact ⟨t, ht.weaken (by decide)⟩
  | ofFactor _ ih =>
      obtain ⟨t, ht⟩ := ih
      exact ⟨t, ht.weaken (by decide)⟩
  | number x => exact ⟨.number x, .number x⟩
  | parenthesised _ ih =>
      obtain ⟨t, ht⟩ := ih
      exact ⟨t, .parenthesised (ht.weaken (by decide))⟩

/-- A phrase is a sentence of every kind that its level admits. -/
theorem derives_of_phrase {level : Nat} {t : ExpressionTree} {ts : List Token} (h : Phrase level t ts) :
    Derives .expression ts ∧ (2 ≤ level → Derives .term ts) ∧ (3 ≤ level → Derives .factor ts) := by
  induction h with
  | number x =>
      have hfactor : Derives .factor [.number x] := .number x
      exact ⟨.ofTerm (.ofFactor hfactor), fun _ => .ofFactor hfactor, fun _ => hfactor⟩
  | parenthesised _ ih =>
      have hfactor := Derives.parenthesised ih.1
      exact ⟨.ofTerm (.ofFactor hfactor), fun _ => .ofFactor hfactor, fun _ => hfactor⟩
  | @operation level left right op ts us hlevel _ _ ihl ihr =>
      have hfactor : ¬3 ≤ level := by
        cases op <;> simp only [Operator.precedence] at hlevel <;> omega
      cases op with
      | add =>
          have hterm : ¬2 ≤ level := Nat.not_le.2 (Nat.lt_succ_of_le hlevel)
          exact ⟨.add ihl.1 (ihr.2.1 (by decide)), fun h => absurd h hterm, fun h => absurd h hfactor⟩
      | sub =>
          have hterm : ¬2 ≤ level := Nat.not_le.2 (Nat.lt_succ_of_le hlevel)
          exact ⟨.sub ihl.1 (ihr.2.1 (by decide)), fun h => absurd h hterm, fun h => absurd h hfactor⟩
      | mul =>
          have hproduct := Derives.mul (ihl.2.1 (by decide)) (ihr.2.2 (by decide))
          exact ⟨.ofTerm hproduct, fun _ => hproduct, fun h => absurd h hfactor⟩
      | div =>
          have hquotient := Derives.div (ihl.2.1 (by decide)) (ihr.2.2 (by decide))
          exact ⟨.ofTerm hquotient, fun _ => hquotient, fun h => absurd h hfactor⟩

/-- Whether a token ends an operand. -/
def endsOperand : Token → Bool
  | .number _ | .closing => true
  | .operator _ | .opening => false

/-- Whether a token begins an operand. -/
def beginsOperand : Token → Bool
  | .number _ | .opening => true
  | .operator _ | .closing => false

/-- No operand stands directly beside another. -/
def OperandsApart (ts : List Token) : Prop :=
  ts.IsChain fun a b => ¬(endsOperand a = true ∧ beginsOperand b = true)

instance (ts : List Token) : Decidable (OperandsApart ts) :=
  inferInstanceAs (Decidable (ts.IsChain _))

/-- Operands and operators stand in turn, parentheses apart; whether an operand is awaited first. -/
def Alternates : Bool → List Token → Prop
  | awaited, [] => awaited = false
  | awaited, .number _ :: ts => awaited = true ∧ Alternates false ts
  | awaited, .opening :: ts => awaited = true ∧ Alternates true ts
  | awaited, .operator _ :: ts => awaited = false ∧ Alternates true ts
  | awaited, .closing :: ts => awaited = false ∧ Alternates false ts

/-- Tokens that may follow where an operand is awaited or has just ended. -/
structure Follows (awaited : Bool) (ts : List Token) : Prop where
  apart : OperandsApart ts
  first : awaited = false → ∀ token ∈ ts.head?, beginsOperand token = false

theorem Follows.tail {awaited : Bool} {token : Token} {ts : List Token}
    (h : Follows awaited (token :: ts)) : Follows (!endsOperand token) ts := by
  obtain ⟨happart, -⟩ := h
  cases ts with
  | nil => exact ⟨.nil, fun _ _ hnone => by cases hnone⟩
  | cons next ts =>
      obtain ⟨hpair, htail⟩ := List.isChain_cons_cons.1 happart
      refine ⟨htail, fun hends token' hnext => ?_⟩
      cases hnext
      by_contra hbegins
      rw [Bool.not_eq_false] at hbegins
      rw [Bool.not_eq_false'] at hends
      exact hpair ⟨hends, hbegins⟩

theorem Follows.awaited_of_begins {awaited : Bool} {token : Token} {ts : List Token}
    (h : Follows awaited (token :: ts)) (hbegins : beginsOperand token = true) : awaited = true := by
  by_contra hfalse
  rw [Bool.not_eq_true] at hfalse
  rw [h.first hfalse token rfl] at hbegins
  cases hbegins

open Postfix (surplus itemsOf)

/-- An operand more is all that can be gained, and only where one is awaited. -/
theorem surplus_le {awaited : Bool} {ts : List Token} (h : Follows awaited ts) :
    surplus (itemsOf ts) ≤ if awaited then 1 else 0 := by
  induction ts generalizing awaited with
  | nil => cases awaited <;> decide
  | cons token ts ih =>
      have hrest := ih h.tail
      cases token with
      | number x =>
          obtain rfl := h.awaited_of_begins rfl
          show surplus (.number x :: itemsOf ts) ≤ 1
          rw [Postfix.surplus_number_cons]
          exact Int.add_le_add_right hrest 1
      | opening =>
          obtain rfl := h.awaited_of_begins rfl
          exact hrest
      | operator op =>
          show surplus (.operator op :: itemsOf ts) ≤ _
          change surplus (itemsOf ts) ≤ 1 at hrest
          rw [Postfix.surplus_operator_cons]
          refine Int.le_trans (Int.sub_le_sub_right hrest 1) ?_
          cases awaited <;> decide
      | closing =>
          refine Int.le_trans hrest ?_
          cases awaited <;> decide

/-- Where all that can be gained is gained, operands and operators stand in turn. -/
theorem alternates_of_surplus {awaited : Bool} {ts : List Token} (h : Follows awaited ts)
    (hsurplus : surplus (itemsOf ts) = if awaited then 1 else 0) : Alternates awaited ts := by
  induction ts generalizing awaited with
  | nil =>
      cases awaited with
      | false => rfl
      | true => cases hsurplus
  | cons token ts ih =>
      have hrest := ih h.tail
      have hle := surplus_le h.tail
      cases token with
      | number x =>
          obtain rfl := h.awaited_of_begins rfl
          change surplus (.number x :: itemsOf ts) = 1 at hsurplus
          rw [Postfix.surplus_number_cons] at hsurplus
          have hzero : surplus (itemsOf ts) = 0 := by omega
          exact ⟨rfl, hrest hzero⟩
      | opening =>
          obtain rfl := h.awaited_of_begins rfl
          exact ⟨rfl, hrest hsurplus⟩
      | operator op =>
          change surplus (.operator op :: itemsOf ts) = _ at hsurplus
          change surplus (itemsOf ts) ≤ 1 at hle
          rw [Postfix.surplus_operator_cons] at hsurplus
          cases awaited with
          | false =>
              change surplus (itemsOf ts) - 1 = 0 at hsurplus
              have hone : surplus (itemsOf ts) = 1 := by omega
              exact ⟨rfl, hrest hone⟩
          | true =>
              change surplus (itemsOf ts) - 1 = 1 at hsurplus
              omega
      | closing =>
          change surplus (itemsOf ts) ≤ 0 at hle
          cases awaited with
          | false => exact ⟨rfl, hrest hsurplus⟩
          | true =>
              change surplus (itemsOf ts) = 1 at hsurplus
              omega

/-- Whether every parenthesis has a partner, with `depth` opening ones still open. -/
def Nested : Nat → List Token → Prop
  | depth, [] => depth = 0
  | depth, .opening :: ts => Nested (depth + 1) ts
  | 0, .closing :: _ => False
  | depth + 1, .closing :: ts => Nested depth ts
  | depth, .number _ :: ts => Nested depth ts
  | depth, .operator _ :: ts => Nested depth ts

/-- Tokens after which an operand of some level is awaited, with `depth` parentheses open. -/
inductive Awaiting : Nat → Nat → List Token → Prop
  | start : Awaiting 0 0 []
  | opening {depth level : Nat} {ts : List Token} :
      Awaiting depth level ts → Awaiting (depth + 1) 0 (ts ++ [.opening])
  | operator {depth level : Nat} {t : ExpressionTree} {op : Operator} {ts us : List Token} :
      Awaiting depth level ts → level ≤ op.precedence → Phrase op.precedence t us →
      Awaiting depth (op.precedence + 1) (ts ++ us ++ [.operator op])

theorem Awaiting.level_le {depth level : Nat} {ts : List Token} (h : Awaiting depth level ts) :
    level ≤ 3 := by
  cases h with
  | start => decide
  | opening => decide
  | @operator _ _ _ op => cases op <;> decide

/-- The operand at the end takes up the operations before it that bind at least as tightly as a
level. -/
theorem Awaiting.reduce {depth level bound lower : Nat} {t : ExpressionTree} {ts us : List Token}
    (h : Awaiting depth level ts) (ht : Phrase bound t us) (hlevel : level ≤ bound)
    (hlower : lower ≤ bound) :
    ∃ level' t' ts' us', Awaiting depth level' ts' ∧ level' ≤ lower ∧ Phrase lower t' us' ∧
      ts' ++ us' = ts ++ us := by
  induction h generalizing bound t us with
  | start => exact ⟨0, t, [], us, .start, Nat.zero_le _, ht.weaken hlower, rfl⟩
  | @opening depth level ts h _ =>
      exact ⟨0, t, ts ++ [.opening], us, .opening h, Nat.zero_le _, ht.weaken hlower, rfl⟩
  | @operator depth level left op ts vs h hop hleft ih =>
      by_cases hbelow : op.precedence + 1 ≤ lower
      · exact ⟨op.precedence + 1, t, ts ++ vs ++ [.operator op], us, .operator h hop hleft, hbelow,
          ht.weaken hlower, rfl⟩
      · have hoperation : Phrase op.precedence (.operation left op t) (vs ++ .operator op :: us) :=
          .operation (Nat.le_refl _) hleft (ht.weaken hlevel)
        obtain ⟨level', t', ts', us', hawaiting, hle, hphrase, heq⟩ :=
          ih hoperation hop (by omega)
        refine ⟨level', t', ts', us', hawaiting, hle, hphrase, ?_⟩
        rw [heq]
        simp

/-- Tokens in which operands and operators alternate and parentheses have partners complete a
phrase. -/
theorem exists_phrase_of_alternates (rest : List Token) {depth level : Nat} {ts : List Token}
    (h : Awaiting depth level ts) (hnested : Nested depth rest) :
    (Alternates true rest → ∃ t, Phrase 0 t (ts ++ rest)) ∧
    (∀ t us, Phrase 3 t us → Alternates false rest → ∃ t', Phrase 0 t' (ts ++ us ++ rest)) := by
  induction rest generalizing depth level ts with
  | nil =>
      refine ⟨fun hfalse => Bool.noConfusion hfalse, fun t us ht _ => ?_⟩
      obtain ⟨level', t', ts', us', hawaiting, hle, hphrase, heq⟩ :=
        h.reduce ht h.level_le (Nat.zero_le 3)
      obtain rfl := Nat.le_zero.1 hle
      change depth = 0 at hnested
      subst hnested
      cases hawaiting
      rw [List.append_nil, ← heq]
      exact ⟨t', hphrase⟩
  | cons token rest ih =>
      constructor
      · intro halternates
        cases token with
        | number x =>
            obtain ⟨t, ht⟩ := (ih h hnested).2 (.number x) [.number x] (.number x) halternates.2
            exact ⟨t, by simpa using ht⟩
        | opening =>
            obtain ⟨t, ht⟩ := (ih h.opening hnested).1 halternates.2
            exact ⟨t, by simpa using ht⟩
        | operator op => exact Bool.noConfusion halternates.1
        | closing => exact Bool.noConfusion halternates.1
      · intro t us ht halternates
        cases token with
        | number x => exact Bool.noConfusion halternates.1
        | opening => exact Bool.noConfusion halternates.1
        | operator op =>
            have hprecedence : op.precedence ≤ 3 := by cases op <;> decide
            obtain ⟨level', t', ts', us', hawaiting, hle, hphrase, heq⟩ :=
              h.reduce ht h.level_le hprecedence
            obtain ⟨u, hu⟩ := (ih (hawaiting.operator hle hphrase) hnested).1 halternates.2
            rw [heq] at hu
            exact ⟨u, by simpa using hu⟩
        | closing =>
            cases depth with
            | zero => exact False.elim hnested
            | succ depth =>
                obtain ⟨level', t', ts', us', hawaiting, hle, hphrase, heq⟩ :=
                  h.reduce ht h.level_le (Nat.zero_le 3)
                obtain rfl := Nat.le_zero.1 hle
                cases hawaiting with
                | @opening _ _ vs hvs =>
                    obtain ⟨u, hu⟩ := (ih hvs hnested).2 t' _ (.parenthesised hphrase) halternates.2
                    refine ⟨u, ?_⟩
                    rw [← heq]
                    simpa using hu

theorem nested_closings (depth : Nat) : Nested depth (List.replicate depth .closing) := by
  induction depth with
  | zero => rfl
  | succ depth ih => exact ih

open Postfix (unmatchedClosings unmatchedOpenings enclosed balanced)

theorem nested_unmatched (ts : List Token) (depth : Nat) :
    Nested (unmatchedClosings depth ts + depth)
      (ts ++ List.replicate (unmatchedOpenings depth ts) .closing) := by
  induction ts generalizing depth with
  | nil =>
      rw [unmatchedClosings, unmatchedOpenings, Nat.zero_add]
      exact nested_closings depth
  | cons token ts ih =>
      cases token with
      | number x => exact ih depth
      | operator op => exact ih depth
      | opening => exact ih (depth + 1)
      | closing =>
          cases depth with
          | zero => exact ih 0
          | succ depth => exact ih depth

theorem nested_openings (count depth : Nat) (ts : List Token) (h : Nested (count + depth) ts) :
    Nested depth (List.replicate count .opening ++ ts) := by
  induction count generalizing depth with
  | zero => rwa [Nat.zero_add] at h
  | succ count ih =>
      refine ih (depth + 1) ?_
      rwa [Nat.add_right_comm, Nat.add_assoc] at h

theorem nested_balanced (ts : List Token) : Nested 0 (balanced ts) := by
  rw [balanced, enclosed, List.append_assoc]
  exact nested_openings _ 0 _ (nested_unmatched ts 0)

theorem alternates_openings (count : Nat) {ts : List Token} (h : Alternates true ts) :
    Alternates true (List.replicate count .opening ++ ts) := by
  induction count with
  | zero => exact h
  | succ count ih => exact ⟨rfl, ih⟩

theorem alternates_closings (count : Nat) {awaited : Bool} {ts : List Token}
    (h : Alternates awaited ts) : Alternates awaited (ts ++ List.replicate count .closing) := by
  induction ts generalizing awaited with
  | nil =>
      change awaited = false at h
      subst h
      induction count with
      | zero => rfl
      | succ count ih => exact ⟨rfl, ih⟩
  | cons token ts ih => cases token <;> exact ⟨h.1, ih h.2⟩

/-- Where no operand stands beside another, a postfix sequence of one tree comes of a sentence. -/
theorem derives_of_operandsApart {ts : List Token} {t : ExpressionTree} (hapart : OperandsApart ts)
    (h : t.postOrder = Postfix.ofTokens ts) : Derives .expression (balanced ts) := by
  have hsurplus : surplus (itemsOf ts) = 1 := by
    rw [← Postfix.surplus_eq_of_perm (Postfix.ofTokens_perm ts), ← h]
    exact Postfix.surplus_postOrder t
  have halternates : Alternates true ts :=
    alternates_of_surplus ⟨hapart, fun hfalse => Bool.noConfusion hfalse⟩ hsurplus
  have hbalanced : Alternates true (balanced ts) :=
    alternates_closings _ (alternates_openings _ halternates)
  obtain ⟨t', ht'⟩ := (exists_phrase_of_alternates (balanced ts) .start (nested_balanced ts)).1 hbalanced
  exact (derives_of_phrase ht').1

/-- A sentence ends in an operand. -/
theorem exists_endsOperand {kind : Kind} {ts : List Token} (h : Derives kind ts) :
    ∃ init last, ts = init ++ [last] ∧ endsOperand last = true := by
  have hright {ts us : List Token} {op : Operator}
      (h : ∃ init last, us = init ++ [last] ∧ endsOperand last = true) :
      ∃ init last, ts ++ .operator op :: us = init ++ [last] ∧ endsOperand last = true := by
    obtain ⟨init, last, rfl, hlast⟩ := h
    exact ⟨ts ++ .operator op :: init, last, by simp, hlast⟩
  induction h with
  | add _ _ _ ihr => exact hright ihr
  | sub _ _ _ ihr => exact hright ihr
  | mul _ _ _ ihr => exact hright ihr
  | div _ _ _ ihr => exact hright ihr
  | ofTerm _ ih => exact ih
  | ofFactor _ ih => exact ih
  | number x => exact ⟨[], .number x, rfl, rfl⟩
  | @parenthesised ts _ _ => exact ⟨.opening :: ts, .closing, rfl, rfl⟩

end Infix

namespace Expression

open Infix (Derives OperandsApart)

/-- The postfix form of an accepted text is the post-order of a tree that gives the answer. -/
theorem exists_tree_of_evaluate {s : String} {e : Evaluation} {ts : List Token}
    (h : evaluate s = .ok e) (hvalid : validate s = .ok ()) (hts : tokens s = .ok ts) :
    ∃ t : ExpressionTree, t.postOrder = Postfix.ofTokens ts ∧ e = ⟨t.value, t.steps⟩ := by
  rw [evaluate_of_tokens hvalid hts] at h
  obtain ⟨t, ht⟩ := Postfix.exists_postOrder_of_evaluate h
  rw [← ht, Postfix.evaluate_postOrder] at h
  cases h
  exact ⟨t, ht, rfl⟩

theorem exists_tree_eq {s : String} {e : Evaluation} (h : evaluate s = .ok e) :
    ∃ t : ExpressionTree, e = ⟨t.value, t.steps⟩ := by
  obtain ⟨hvalid, ts, hts⟩ := exists_tokens_of_evaluate h
  obtain ⟨t, -, he⟩ := exists_tree_of_evaluate h hvalid hts
  exact ⟨t, he⟩

theorem exists_operation_of_evaluate {s : String} {e : Evaluation} (h : evaluate s = .ok e) {step : Step}
    (hstep : step ∈ e.steps) : ∃ x op y, step = .operation x op y (op.apply x y) := by
  obtain ⟨t, rfl⟩ := exists_tree_eq h
  exact Postfix.exists_operation_of_mem_steps hstep

theorem exists_evaluate_of_derives {s : String} {ts : List Token} (hvalid : validate s = .ok ())
    (hts : tokens s = .ok ts) (h : Derives .expression (Postfix.balanced ts)) :
    ∃ e, evaluate s = .ok e := by
  obtain ⟨t, ht⟩ := Infix.exists_phrase h
  refine ⟨⟨t.value, t.steps⟩, ?_⟩
  rw [evaluate_of_tokens hvalid hts, ← Postfix.ofTokens_balanced, Postfix.ofTokens_phrase ht,
    Postfix.evaluate_postOrder]

/-- What is accepted, for every text. An accepted text is a sentence of the grammar once every
parenthesis has a partner, unless an operand stands directly beside another in it; in either case it
has the value and the steps of a tree of its own numbers, in order, and its own operators. Of the texts
that can be read as tokens every sentence is accepted, and whatever is refused is malformed, among it
each text that is no sentence and has no operand beside another. -/
theorem evaluate_infix (s : String) :
    (∀ e, evaluate s = .ok e → ∃ ts, tokens s = .ok ts ∧
      (Derives .expression (Postfix.balanced ts) ∨ ¬OperandsApart ts) ∧
      ∃ t : ExpressionTree, e = ⟨t.value, t.steps⟩ ∧
        t.postOrder.Perm (Postfix.itemsOf ts) ∧
        t.postOrder.filter PostfixItem.isNumber =
          (Postfix.itemsOf ts).filter PostfixItem.isNumber) ∧
    (∀ ts, validate s = .ok () → tokens s = .ok ts →
      (Derives .expression (Postfix.balanced ts) → ∃ e, evaluate s = .ok e) ∧
      (∀ err, evaluate s = .error err → err.kind = "MalformedExpression") ∧
      (OperandsApart ts → ¬Derives .expression (Postfix.balanced ts) →
        ∃ err, evaluate s = .error err ∧ err.kind = "MalformedExpression")) := by
  have hkind : ∀ ts err, validate s = .ok () → tokens s = .ok ts → evaluate s = .error err →
      err.kind = "MalformedExpression" := by
    intro ts err hvalid hts herr
    rw [evaluate_of_tokens hvalid hts] at herr
    exact Postfix.kind_of_evaluate herr
  constructor
  · intro e he
    obtain ⟨hvalid, ts, hts⟩ := exists_tokens_of_evaluate he
    obtain ⟨t, ht, rfl⟩ := exists_tree_of_evaluate he hvalid hts
    refine ⟨ts, hts, ?_, t, rfl, ?_, ?_⟩
    · by_cases hapart : OperandsApart ts
      · exact Or.inl (Infix.derives_of_operandsApart hapart ht)
      · exact Or.inr hapart
    · rw [ht]
      exact Postfix.ofTokens_perm ts
    · rw [ht]
      exact Postfix.numbers_ofTokens ts
  · intro ts hvalid hts
    refine ⟨exists_evaluate_of_derives hvalid hts, fun err => hkind ts err hvalid hts, ?_⟩
    intro hapart hnot
    cases he : evaluate s with
    | error err => exact ⟨err, rfl, hkind ts err hvalid hts he⟩
    | ok e =>
        obtain ⟨t, ht, -⟩ := exists_tree_of_evaluate he hvalid hts
        exact absurd (Infix.derives_of_operandsApart hapart ht) hnot

/-- Two numbers and an operator after them are accepted, and they are no sentence. -/
theorem evaluate_numbers_then_operator :
    tokens "1 2+" = .ok [.number 1, .number 2, .operator .add] ∧
      evaluate "1 2+" = .ok ⟨1 + 2, [.operation 1 .add 2 (1 + 2)]⟩ ∧
      ¬Derives .expression (Postfix.balanced [.number 1, .number 2, .operator .add]) := by
  refine ⟨by decide +kernel, by decide +kernel, fun h => ?_⟩
  obtain ⟨init, last, htokens, hends⟩ := Infix.exists_endsOperand h
  have hlast := congrArg List.getLast? htokens
  rw [List.getLast?_concat] at hlast
  cases hlast
  cases hends

end Expression
end Reckoner
