import Mathlib.Data.List.Basic
import Reckoner.Expression.Tree

/-! The stack of the postfix evaluator as a forest. Every value on the stack is the value of one tree,
the post-orders of these trees one after another are the items read so far, and an operator joins the
two newest trees. So a sequence is accepted exactly when it is the post-order of one tree, which is
then the only one, and the first operator that finds fewer than two trees is the one that is blamed
(`evaluate_classification`). -/

namespace Reckoner

def PostfixItem.isNumber : PostfixItem → Bool
  | .number _ => true
  | .operator _ => false

namespace Postfix

def numberCount (items : List PostfixItem) : Nat :=
  items.countP PostfixItem.isNumber

def operatorCount (items : List PostfixItem) : Nat :=
  items.countP fun item => !item.isNumber

/-- How many more numbers than operators there are. -/
def surplus (items : List PostfixItem) : Int :=
  numberCount items - operatorCount items

@[simp] theorem surplus_nil : surplus [] = 0 := rfl

@[simp] theorem surplus_append (items others : List PostfixItem) :
    surplus (items ++ others) = surplus items + surplus others := by
  simp only [surplus, numberCount, operatorCount, List.countP_append]
  omega

@[simp] theorem surplus_number_cons (x : Binary64) (items : List PostfixItem) :
    surplus (.number x :: items) = surplus items + 1 := by
  simp only [surplus, numberCount, operatorCount, List.countP_cons, PostfixItem.isNumber]
  simp only [if_true, Bool.not_true, Bool.false_eq_true, if_false]
  omega

@[simp] theorem surplus_operator_cons (op : Operator) (items : List PostfixItem) :
    surplus (.operator op :: items) = surplus items - 1 := by
  simp only [surplus, numberCount, operatorCount, List.countP_cons, PostfixItem.isNumber]
  simp only [Bool.false_eq_true, if_false, Bool.not_false, if_true]
  omega

/-- The post-orders of the trees of a forest, the oldest first. A forest lists its trees newest first, like
the stack. -/
def sequenceOf (forest : List ExpressionTree) : List PostfixItem :=
  forest.reverse.flatMap ExpressionTree.postOrder

/-- The evaluator that has read the post-orders of the trees of a forest. -/
def Machine.ofForest (forest : List ExpressionTree) : Machine :=
  ⟨forest.map ExpressionTree.value, (forest.reverse.flatMap ExpressionTree.steps).reverse⟩

/-- Reads one item: a number is a new tree, an operator joins the two newest ones. -/
def grow : List ExpressionTree → PostfixItem → Option (List ExpressionTree)
  | forest, .number x => some (.number x :: forest)
  | right :: left :: forest, .operator op => some (.operation left op right :: forest)
  | _, .operator _ => none

def growAll (forest : List ExpressionTree) : List PostfixItem → Option (List ExpressionTree)
  | [] => some forest
  | item :: items => (grow forest item).bind fun forest => growAll forest items

theorem growAll_append (forest : List ExpressionTree) (items others : List PostfixItem) :
    growAll forest (items ++ others) =
      (growAll forest items).bind fun forest => growAll forest others := by
  induction items generalizing forest with
  | nil => rfl
  | cons item items ih =>
      rw [List.cons_append, growAll, growAll]
      cases grow forest item with
      | none => rfl
      | some forest => exact ih forest

/-- The post-order of a tree grows that tree, whatever stands below it and whatever follows. -/
theorem growAll_postOrder (t : ExpressionTree) (forest : List ExpressionTree)
    (items : List PostfixItem) : growAll forest (t.postOrder ++ items) = growAll (t :: forest) items := by
  induction t generalizing forest items with
  | number x => rfl
  | operation left op right ihl ihr =>
      rw [ExpressionTree.postOrder, List.append_assoc, List.append_assoc, ihl, ihr]
      rfl

theorem postOrder_injective {t u : ExpressionTree} (h : t.postOrder = u.postOrder) : t = u := by
  have ht := growAll_postOrder t [] []
  have hu := growAll_postOrder u [] []
  rw [h, hu] at ht
  simpa [growAll] using ht.symm

/-- One item: the forest that it gives has that item at the end of its sequence, and one tree more
than numbers less operators say. -/
theorem sequenceOf_grow {forest next : List ExpressionTree} {item : PostfixItem}
    (h : grow forest item = some next) :
    sequenceOf next = sequenceOf forest ++ [item] ∧
      (next.length : Int) = forest.length + surplus [item] := by
  cases item with
  | number x =>
      cases h
      simp [sequenceOf, ExpressionTree.postOrder]
  | operator op =>
      rcases forest with _ | ⟨right, _ | ⟨left, rest⟩⟩
      · cases h
      · cases h
      · cases h
        refine ⟨by simp [sequenceOf, ExpressionTree.postOrder], ?_⟩
        simp only [List.length_cons, surplus_operator_cons, surplus_nil]
        omega

theorem sequenceOf_growAll {forest last : List ExpressionTree} {items : List PostfixItem}
    (h : growAll forest items = some last) :
    sequenceOf last = sequenceOf forest ++ items ∧
      (last.length : Int) = forest.length + surplus items := by
  induction items generalizing forest with
  | nil =>
      cases h
      simp
  | cons item items ih =>
      obtain ⟨next, hnext, hlast⟩ := Option.bind_eq_some_iff.1 h
      obtain ⟨hsequence, hlength⟩ := sequenceOf_grow hnext
      obtain ⟨hsequence', hlength'⟩ := ih hlast
      have hsplit : surplus (item :: items) = surplus [item] + surplus items :=
        surplus_append [item] items
      refine ⟨?_, by omega⟩
      rw [hsequence', hsequence, List.append_assoc, List.singleton_append]

/-- An operator fails to join only where there are fewer than two trees. -/
theorem length_lt_two_of_grow_eq_none {forest : List ExpressionTree} {item : PostfixItem}
    (h : grow forest item = none) : ∃ op, item = .operator op ∧ forest.length < 2 := by
  cases item with
  | number x => cases h
  | operator op =>
      refine ⟨op, rfl, ?_⟩
      rcases forest with _ | ⟨right, _ | ⟨left, rest⟩⟩
      · decide
      · exact Nat.lt_succ_self 1
      · cases h

/-- Where every operator of a sequence found two trees, there were two values before each. -/
theorem two_le_of_growAll {forest last : List ExpressionTree} {before after : List PostfixItem}
    {op : Operator} (h : growAll forest (before ++ .operator op :: after) = some last) :
    2 ≤ forest.length + surplus before := by
  rw [growAll_append] at h
  obtain ⟨middle, hmiddle, hafter⟩ := Option.bind_eq_some_iff.1 h
  obtain ⟨next, hnext, -⟩ := Option.bind_eq_some_iff.1 hafter
  have hlength := (sequenceOf_growAll hmiddle).2
  rcases middle with _ | ⟨right, _ | ⟨left, rest⟩⟩
  · cases hnext
  · cases hnext
  · simp only [List.length_cons] at hlength
    omega

/-- The evaluator does to the values what `grow` does to the trees. -/
theorem Machine.execute_ofForest {forest next : List ExpressionTree} {item : PostfixItem}
    (h : grow forest item = some next) :
    (Machine.ofForest forest).execute item = .ok (Machine.ofForest next) := by
  cases item with
  | number x =>
      cases h
      simp [Machine.execute, Machine.ofForest, ExpressionTree.value, ExpressionTree.steps]
  | operator op =>
      rcases forest with _ | ⟨right, _ | ⟨left, rest⟩⟩
      · cases h
      · cases h
      · cases h
        simp [Machine.execute, Machine.ofForest, ExpressionTree.value, ExpressionTree.steps]

theorem Machine.execute_ofForest_short {forest : List ExpressionTree} (op : Operator)
    (h : forest.length < 2) :
    (Machine.ofForest forest).execute (.operator op) = .error (.missingOperands op) := by
  rcases forest with _ | ⟨right, _ | ⟨left, rest⟩⟩
  · rfl
  · rfl
  · simp only [List.length_cons] at h
    omega

theorem Machine.run_ofForest {forest last : List ExpressionTree} {items : List PostfixItem}
    (h : growAll forest items = some last) :
    (Machine.ofForest forest).run items = .ok (Machine.ofForest last) := by
  induction items generalizing forest with
  | nil =>
      cases h
      rfl
  | cons item items ih =>
      obtain ⟨next, hnext, hlast⟩ := Option.bind_eq_some_iff.1 h
      rw [Machine.run, Machine.execute_ofForest hnext]
      exact ih hlast

/-- A run that fails has grown a forest up to an operator that found fewer than two trees in it. -/
theorem Machine.run_ofForest_short {forest : List ExpressionTree} {items : List PostfixItem}
    (h : growAll forest items = none) :
    ∃ before op after middle, items = before ++ .operator op :: after ∧
      growAll forest before = some middle ∧ middle.length < 2 ∧
      (Machine.ofForest forest).run items = .error (.missingOperands op) := by
  induction items generalizing forest with
  | nil => cases h
  | cons item items ih =>
      cases hnext : grow forest item with
      | none =>
          obtain ⟨op, rfl, hlength⟩ := length_lt_two_of_grow_eq_none hnext
          refine ⟨[], op, items, forest, rfl, rfl, hlength, ?_⟩
          rw [Machine.run, Machine.execute_ofForest_short op hlength]
      | some next =>
          rw [growAll, hnext, Option.bind_some] at h
          obtain ⟨before, op, after, middle, rfl, hbefore, hlength, hrun⟩ := ih h
          refine ⟨item :: before, op, after, middle, rfl, ?_, hlength, ?_⟩
          · rw [growAll, hnext, Option.bind_some, hbefore]
          · rw [Machine.run, Machine.execute_ofForest hnext]
            exact hrun

/-- An operator of a sequence, after the items `before`, for which there are fewer than two values. -/
structure Shortage (items before : List PostfixItem) (op : Operator) : Prop where
  initial : before ++ [.operator op] <+: items
  short : surplus before < 2

/-- Up to an operator before which every other one found its values, no operator is short. -/
theorem Shortage.length_le {items before middle : List PostfixItem} {op : Operator}
    {last : List ExpressionTree} (h : Shortage items middle op) (hbefore : before <+: items)
    (hgrow : growAll [] before = some last) : before.length ≤ middle.length := by
  by_contra hlt
  have hinitial : middle ++ [.operator op] <+: before := by
    refine List.prefix_of_prefix_length_le h.initial hbefore ?_
    rw [List.length_append, List.length_singleton]
    omega
  obtain ⟨after, rfl⟩ := hinitial
  rw [List.append_assoc, List.singleton_append] at hgrow
  have htwo := two_le_of_growAll hgrow
  have hshort := h.short
  rw [List.length_nil] at htwo
  omega

/-- The first operator of a sequence for which there are fewer than two values. -/
structure FirstShortage (items before : List PostfixItem) (op : Operator) : Prop
    extends Shortage items before op where
  first : ∀ earlier other, Shortage items earlier other → before.length ≤ earlier.length

theorem postOrder_of_growAll {items : List PostfixItem} {t : ExpressionTree}
    (h : growAll [] items = some [t]) : t.postOrder = items := by
  have hsequence := (sequenceOf_growAll h).1
  simpa [sequenceOf] using hsequence

theorem evaluate_of_growAll_eq_none {items : List PostfixItem} (h : growAll [] items = none) :
    ∃ before op, FirstShortage items before op ∧
      evaluate items = .error (.missingOperands op) := by
  obtain ⟨before, op, after, middle, hitems, hbefore, hlength, hrun⟩ := Machine.run_ofForest_short h
  have hinitial : before <+: items := ⟨_, hitems.symm⟩
  have hmiddle := (sequenceOf_growAll hbefore).2
  rw [List.length_nil] at hmiddle
  refine ⟨before, op, ⟨⟨⟨after, ?_⟩, by omega⟩, ?_⟩, ?_⟩
  · rw [hitems, List.append_assoc, List.singleton_append]
  · exact fun earlier other hother => hother.length_le hinitial hbefore
  · rw [evaluate, show Machine.mk [] [] = Machine.ofForest [] from rfl, hrun]

/-- Where every operator finds two trees, any other number of them than one is refused at the end. -/
theorem evaluate_of_growAll {items : List PostfixItem} {forest : List ExpressionTree}
    (h : growAll [] items = some forest) (hlength : forest.length ≠ 1) :
    (∀ before op, ¬Shortage items before op) ∧ (forest.length : Int) = surplus items ∧
      evaluate items = .error (.leftOperands forest.length) := by
  refine ⟨?_, ?_, ?_⟩
  · intro before op hshort
    have hle := hshort.length_le (List.prefix_refl items) h
    have hinitial := hshort.initial.length_le
    rw [List.length_append, List.length_singleton] at hinitial
    omega
  · have hcount := (sequenceOf_growAll h).2
    rw [List.length_nil] at hcount
    omega
  · have hrun : Machine.run ⟨[], []⟩ items = .ok (Machine.ofForest forest) :=
      Machine.run_ofForest h
    rw [evaluate, hrun]
    rcases forest with _ | ⟨right, _ | ⟨left, rest⟩⟩
    · rfl
    · exact absurd rfl hlength
    · simp [Machine.ofForest]

theorem exists_postOrder_of_evaluate {items : List PostfixItem} {e : Evaluation}
    (h : evaluate items = .ok e) : ∃ t : ExpressionTree, t.postOrder = items := by
  cases hgrow : growAll [] items with
  | none =>
      obtain ⟨before, op, -, herror⟩ := evaluate_of_growAll_eq_none hgrow
      rw [herror] at h
      cases h
  | some forest =>
      by_cases hlength : forest.length = 1
      · obtain ⟨t, rfl⟩ := List.length_eq_one_iff.1 hlength
        exact ⟨t, postOrder_of_growAll hgrow⟩
      · rw [(evaluate_of_growAll hgrow hlength).2.2] at h
        cases h

/-- What a sequence that is not accepted is blamed for. -/
theorem blame_of_evaluate {items : List PostfixItem} {e : CalculationError}
    (h : evaluate items = .error e) :
    (∃ before op, FirstShortage items before op ∧ e = .missingOperands op) ∨
      ((∀ before op, ¬Shortage items before op) ∧
        ∃ count : Nat, (count : Int) = surplus items ∧ e = .leftOperands count) := by
  cases hgrow : growAll [] items with
  | none =>
      obtain ⟨before, op, hshort, herror⟩ := evaluate_of_growAll_eq_none hgrow
      rw [herror] at h
      cases h
      exact Or.inl ⟨before, op, hshort, rfl⟩
  | some forest =>
      by_cases hlength : forest.length = 1
      · obtain ⟨t, rfl⟩ := List.length_eq_one_iff.1 hlength
        rw [← postOrder_of_growAll hgrow, evaluate_postOrder] at h
        cases h
      · obtain ⟨hnone, hcount, herror⟩ := evaluate_of_growAll hgrow hlength
        rw [herror] at h
        cases h
        exact Or.inr ⟨hnone, forest.length, hcount, rfl⟩

theorem kind_of_evaluate {items : List PostfixItem} {e : CalculationError}
    (h : evaluate items = .error e) : e.kind = "MalformedExpression" := by
  rcases blame_of_evaluate h with ⟨_, _, -, rfl⟩ | ⟨-, _, -, rfl⟩ <;> rfl

theorem steps_length_eq_operatorCount (t : ExpressionTree) :
    t.steps.length = operatorCount t.postOrder := by
  induction t with
  | number x => rfl
  | operation left op right ihl ihr =>
      simp only [ExpressionTree.steps, ExpressionTree.postOrder, operatorCount, List.countP_append,
        List.length_append] at ihl ihr ⊢
      rw [ihl, ihr]
      rfl

theorem surplus_postOrder (t : ExpressionTree) : surplus t.postOrder = 1 := by
  have h := growAll_postOrder t [] []
  rw [List.append_nil] at h
  have hlength := (sequenceOf_growAll (h.trans rfl)).2
  simpa using hlength.symm

/-- The last step of a tree gives its value. -/
theorem result_of_getLast?_steps {t : ExpressionTree} {step : Step}
    (h : t.steps.getLast? = some step) : step.result = t.value := by
  cases t with
  | number x => cases h
  | operation left op right =>
      rw [ExpressionTree.steps, List.getLast?_append] at h
      cases h
      rfl

/-- Every step of a tree is an operation, and its result is that of its operator. -/
theorem exists_operation_of_mem_steps {t : ExpressionTree} {step : Step} (h : step ∈ t.steps) :
    ∃ x op y, step = .operation x op y (op.apply x y) := by
  induction t with
  | number x => cases h
  | operation left op right ihleft ihright =>
      rw [ExpressionTree.steps] at h
      rcases List.mem_append.1 h with h | h
      · exact (List.mem_append.1 h).elim ihleft ihright
      · exact ⟨left.value, op, right.value, List.mem_singleton.1 h⟩

theorem missingOperands_message (op : Operator) :
    (CalculationError.missingOperands op).message =
      "Invalid expression (not enough operands for '" ++ String.singleton op.symbol ++ "')" := by
  cases op <;> decide +kernel

/-- A sequence is accepted exactly when it is the post-order of a tree. That tree is the only one, and
gives the value and the steps. Of a sequence that is not accepted the first operator without its two
values is blamed, and where there is none the number of values that are left. -/
theorem evaluate_classification (items : List PostfixItem) :
    ((∃ e, evaluate items = .ok e) ↔ ∃ t : ExpressionTree, t.postOrder = items) ∧
    (∀ t : ExpressionTree, t.postOrder = items →
      (∀ u : ExpressionTree, u.postOrder = items → u = t) ∧
      evaluate items = .ok ⟨t.value, t.steps⟩ ∧
      t.steps.length = operatorCount items ∧
      numberCount items = t.steps.length + 1 ∧
      ∀ step, t.steps.getLast? = some step → step.result = t.value) ∧
    (∀ e, evaluate items = .error e → e.kind = "MalformedExpression" ∧
      ((∃ before op, FirstShortage items before op ∧ e = .missingOperands op ∧
          e.message = "Invalid expression (not enough operands for '" ++
            String.singleton op.symbol ++ "')") ∨
        ((∀ before op, ¬Shortage items before op) ∧ ∃ count : Nat, (count : Int) = surplus items ∧
          e = .leftOperands count ∧
          e.message = "Invalid expression (" ++ toString count ++
            " operands left instead of 1)"))) := by
  refine ⟨⟨?_, ?_⟩, ?_, ?_⟩
  · rintro ⟨e, he⟩
    exact exists_postOrder_of_evaluate he
  · rintro ⟨t, rfl⟩
    exact ⟨_, evaluate_postOrder t⟩
  · rintro t rfl
    have hsteps := steps_length_eq_operatorCount t
    have hsurplus := surplus_postOrder t
    rw [surplus] at hsurplus
    exact ⟨fun u hu => postOrder_injective hu, evaluate_postOrder t, hsteps, by omega,
      fun step => result_of_getLast?_steps⟩
  · intro e he
    refine ⟨kind_of_evaluate he, ?_⟩
    rcases blame_of_evaluate he with ⟨before, op, hshort, rfl⟩ | ⟨hnone, count, hcount, rfl⟩
    · exact Or.inl ⟨before, op, hshort, rfl, missingOperands_message op⟩
    · exact Or.inr ⟨hnone, count, hcount, rfl, rfl⟩

end Postfix
end Reckoner
