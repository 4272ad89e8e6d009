import Reckoner.Proofs.StepAgreement

/-! The text of a step tells the step. No display holds a blank or a parenthesis, so the text of an
operation falls apart at its blanks from the front, and that of an application at its last opening
parenthesis, whatever the name of the function holds; and an operation has no parenthesis at all. What is
left are displays, and these tell all doubles apart but the two zeros (`render_eq_render_iff`). -/

namespace Reckoner

section Separators

variable {α : Type} {a : α} {xs xs' ys ys' : List α}

/-- A list is told from what follows by a separator that it does not hold. -/
theorem eq_of_append_cons (hxs : a ∉ xs) (hxs' : a ∉ xs') (h : xs ++ a :: ys = xs' ++ a :: ys') :
    xs = xs' ∧ ys = ys' := by
  induction xs generalizing xs' with
  | nil =>
      cases xs' with
      | nil => exact ⟨rfl, (List.cons.inj h).2⟩
      | cons b xs' => exact absurd (List.cons.inj h).1 (List.ne_of_not_mem_cons hxs')
  | cons b xs ih =>
      cases xs' with
      | nil => exact absurd (List.cons.inj h).1.symm (List.ne_of_not_mem_cons hxs)
      | cons b' xs' =>
          obtain ⟨rfl, htail⟩ := List.cons.inj h
          obtain ⟨rfl, hys⟩ := ih (List.not_mem_of_not_mem_cons hxs) (List.not_mem_of_not_mem_cons hxs') htail
          exact ⟨rfl, hys⟩

/-- A list is told from what it follows by a separator that it does not hold. -/
theorem eq_of_append_cons_right (hys : a ∉ ys) (hys' : a ∉ ys') (h : xs ++ a :: ys = xs' ++ a :: ys') :
    xs = xs' ∧ ys = ys' := by
  have hreverse : ys.reverse ++ a :: xs.reverse = ys'.reverse ++ a :: xs'.reverse := by
    simpa using congrArg List.reverse h
  obtain ⟨hback, hfront⟩ := eq_of_append_cons (mt List.mem_reverse.1 hys) (mt List.mem_reverse.1 hys') hreverse
  exact ⟨List.reverse_injective hfront, List.reverse_injective hback⟩

end Separators

namespace Binary64

/-- Whether two doubles are one number: the same double, not-a-number among them, or zeros of any sign. -/
def SameNumber (x y : Binary64) : Prop :=
  x = y ∨ x.isZero = true ∧ y.isZero = true

theorem display_eq_iff_sameNumber {x y : Binary64} : x.display = y.display ↔ x.SameNumber y :=
  display_eq_display_iff.trans shown_eq_shown_iff

theorem space_not_mem_display (x : Binary64) : ' ' ∉ x.display.toList :=
  not_mem_display (by decide) (by decide)

theorem opening_not_mem_display (x : Binary64) : '(' ∉ x.display.toList :=
  not_mem_display (by decide) (by decide)

theorem closing_not_mem_display (x : Binary64) : ')' ∉ x.display.toList :=
  not_mem_display (by decide) (by decide)

end Binary64

namespace Step

open Binary64 (SameNumber space_not_mem_display opening_not_mem_display closing_not_mem_display
  display_eq_iff_sameNumber)

variable {x x' y y' r r' : Binary64} {op op' : Operator} {f f' : String}

theorem toList_render_operation (x : Binary64) (op : Operator) (y r : Binary64) :
    (operation x op y r).render.toList =
      x.display.toList ++ ' ' :: op.symbol :: ' ' ::
        (y.display.toList ++ ' ' :: '=' :: ' ' :: r.display.toList) := by
  simp [render]

theorem toList_render_application (f : String) (x r : Binary64) :
    (application f x r).render.toList =
      f.toList ++ '(' :: (x.display.toList ++ ')' :: ' ' :: '=' :: ' ' :: r.display.toList) := by
  simp [render]

theorem opening_not_mem_operation (x : Binary64) (op : Operator) (y r : Binary64) :
    '(' ∉ (operation x op y r).render.toList := by
  have hsymbol : '(' ≠ op.symbol := by cases op <;> decide
  rw [toList_render_operation]
  simp [opening_not_mem_display, hsymbol]

theorem render_operation_ne_application : (operation x op y r).render ≠ (application f x' r').render := by
  intro h
  apply opening_not_mem_operation x op y r
  rw [h, toList_render_application]
  exact List.mem_append_right _ List.mem_cons_self

theorem display_eq_of_operation (h : (operation x op y r).render = (operation x' op' y' r').render) :
    x.display = x'.display ∧ op = op' ∧ y.display = y'.display ∧ r.display = r'.display := by
  have htext := congrArg String.toList h
  rw [toList_render_operation, toList_render_operation] at htext
  obtain ⟨hleft, hrest⟩ := eq_of_append_cons (space_not_mem_display x) (space_not_mem_display x') htext
  obtain ⟨hop, hrest⟩ := List.cons.inj hrest
  obtain ⟨hright, hrest⟩ :=
    eq_of_append_cons (space_not_mem_display y) (space_not_mem_display y') (List.cons.inj hrest).2
  refine ⟨String.toList_inj.1 hleft, Operator.symbol_injective hop, String.toList_inj.1 hright, ?_⟩
  exact String.toList_inj.1 (List.cons.inj (List.cons.inj hrest).2).2

theorem display_eq_of_application (h : (application f x r).render = (application f' x' r').render) :
    f = f' ∧ x.display = x'.display ∧ r.display = r'.display := by
  have hnone : ∀ x r : Binary64, '(' ∉ x.display.toList ++ ')' :: ' ' :: '=' :: ' ' :: r.display.toList := by
    intro x r
    simp [opening_not_mem_display]
  have htext := congrArg String.toList h
  rw [toList_render_application, toList_render_application] at htext
  obtain ⟨hname, hrest⟩ := eq_of_append_cons_right (hnone x r) (hnone x' r') htext
  obtain ⟨hoperand, hrest⟩ := eq_of_append_cons (closing_not_mem_display x) (closing_not_mem_display x') hrest
  refine ⟨String.toList_inj.1 hname, String.toList_inj.1 hoperand, ?_⟩
  exact String.toList_inj.1 (List.cons.inj (List.cons.inj (List.cons.inj hrest).2).2).2

/-- Steps that do the same with the same numbers. -/
inductive Alike : Step → Step → Prop
  | operation {x x' y y' r r' : Binary64} (op : Operator) : SameNumber x x' → SameNumber y y' →
      SameNumber r r' → Alike (.operation x op y r) (.operation x' op y' r')
  | application {x x' r r' : Binary64} (f : String) : SameNumber x x' → SameNumber r r' →
      Alike (.application f x r) (.application f x' r')

/-- Steps have one text when they are of one kind, with one operator or one function, and their numbers are
the same in turn; and at no other time, whatever the functions are called. -/
theorem render_eq_render_iff (step step' : Step) : step.render = step'.render ↔ step.Alike step' := by
  constructor
  · intro h
    cases step with
    | operation x op y r =>
        cases step' with
        | operation x' op' y' r' =>
            obtain ⟨hleft, rfl, hright, hresult⟩ := display_eq_of_operation h
            exact .operation op (display_eq_iff_sameNumber.1 hleft) (display_eq_iff_sameNumber.1 hright)
              (display_eq_iff_sameNumber.1 hresult)
        | application f x' r' => exact absurd h render_operation_ne_application
    | application f x r =>
        cases step' with
        | operation x' op y' r' => exact absurd h.symm render_operation_ne_application
        | application f' x' r' =>
            obtain ⟨rfl, hoperand, hresult⟩ := display_eq_of_application h
            exact .application f (display_eq_iff_sameNumber.1 hoperand) (display_eq_iff_sameNumber.1 hresult)
  · intro h
    cases h with
    | operation op hleft hright hresult =>
        rw [render, render, display_eq_iff_sameNumber.2 hleft, display_eq_iff_sameNumber.2 hright,
          display_eq_iff_sameNumber.2 hresult]
    | application f hoperand hresult =>
        rw [render, render, display_eq_iff_sameNumber.2 hoperand, display_eq_iff_sameNumber.2 hresult]

end Step

end Reckoner
