import Reckoner.Proofs.DisplayReading
import Reckoner.Proofs.InfixGrammar
import Reckoner.Proofs.RoundingOrder

/-! Steps that ask the same. Displays make no difference between the two zeros and tell all other doubles
apart, so two steps that show the same operands may still have calculated with other zeros. A sum, a
difference or a product of them differs in the sign of a zero at most, and that is not shown either; a
quotient does the same in its dividend. A zero below the line is the one place where a sign comes to
light, as the sign of an infinity (`steps_agree`). -/

namespace Reckoner

namespace Binary64

/-- The double that a display stands for: the double itself, but plus zero for both zeros. -/
def shown (x : Binary64) : Binary64 :=
  if x.isZero then 0 else x

variable {x y : Binary64}

theorem shown_of_isZero (h : x.isZero = true) : x.shown = 0 :=
  if_pos h

theorem shown_of_not_isZero (h : x.isZero = false) : x.shown = x :=
  if_neg (by rw [h]; exact Bool.false_ne_true)

theorem isZero_zero : (0 : Binary64).isZero = true := by
  obtain ⟨_, hzero⟩ := zero_eq
  rw [hzero]
  rfl

theorem isZero_shown (x : Binary64) : x.shown.isZero = x.isZero := by
  rw [shown]
  split_ifs with h
  · rw [isZero_zero, h]
  · rfl

theorem display_shown (x : Binary64) : x.shown.display = x.display := by
  rw [shown]
  split_ifs with h
  · rw [Operand.display_of_isZero h, Operand.display_of_isZero isZero_zero]
  · rfl

/-- Two doubles are displayed alike when they stand for one. -/
theorem display_eq_display_iff : x.display = y.display ↔ x.shown = y.shown := by
  constructor
  · intro h
    rw [shown, ← Operand.parse_display_eq, h, Operand.parse_display_eq, ← shown]
  · intro h
    rw [← display_shown x, h, display_shown]

theorem shown_eq_shown_iff : x.shown = y.shown ↔ x = y ∨ x.isZero = true ∧ y.isZero = true := by
  constructor
  · intro h
    have hboth : x.isZero = y.isZero := by rw [← isZero_shown x, h, isZero_shown]
    cases hzero : x.isZero with
    | true => exact .inr ⟨rfl, hboth ▸ hzero⟩
    | false =>
        left
        rw [← shown_of_not_isZero hzero, h, shown_of_not_isZero (hboth ▸ hzero)]
  · rintro (rfl | ⟨hx, hy⟩)
    · rfl
    · rw [shown_of_isZero hx, shown_of_isZero hy]

variable {x' y' : Binary64}

theorem exists_finite_of_isZero (h : x.isZero = true) :
    ∃ (negative : Bool) (hunits : Representable 0), x = finite negative 0 hunits := by
  cases x with
  | nan => cases h
  | infinity negative => cases h
  | finite negative units hunits =>
      cases units with
      | zero => exact ⟨negative, hunits, rfl⟩
      | succ units => cases h

theorem shown_ofUnits_zero (negative : Bool) : (ofUnits negative 0).shown = 0 := by
  obtain ⟨h, -⟩ := zero_eq
  rw [ofUnits_of_representable negative h]
  exact shown_of_isZero rfl

theorem shown_ofUnitRatio_zero (negative : Bool) {d : Nat} (hd : 0 < d) :
    (ofUnitRatio negative 0 d).shown = 0 := by
  rw [ofUnitRatio, nearestUnits_eq_zero hd, shown_ofUnits_zero]

theorem signedUnits_zero (negative : Bool) : signedUnits negative 0 = 0 := by
  cases negative <;> rfl

theorem shown_add_of_isZero (hx : x.isZero = true) (hx' : x'.isZero = true) (y : Binary64) :
    (x + y).shown = (x' + y).shown := by
  obtain ⟨s, hs, rfl⟩ := exists_finite_of_isZero hx
  obtain ⟨s', hs', rfl⟩ := exists_finite_of_isZero hx'
  cases y with
  | nan => rfl
  | infinity t => rfl
  | finite t v hv =>
      rw [finite_add_finite, finite_add_finite, signedUnits_zero, signedUnits_zero]
      split_ifs
      · rw [shown_ofUnits_zero, shown_ofUnits_zero]
      · rfl

theorem shown_mul_of_isZero (hx : x.isZero = true) (hx' : x'.isZero = true) (y : Binary64) :
    (x * y).shown = (x' * y).shown := by
  obtain ⟨s, hs, rfl⟩ := exists_finite_of_isZero hx
  obtain ⟨s', hs', rfl⟩ := exists_finite_of_isZero hx'
  cases y with
  | nan => rfl
  | infinity t => rfl
  | finite t v hv =>
      rw [finite_mul_finite, finite_mul_finite, Nat.zero_mul, shown_ofUnitRatio_zero _ Decimal.unitsPerOne_pos,
        shown_ofUnitRatio_zero _ Decimal.unitsPerOne_pos]

theorem shown_div_of_isZero (hx : x.isZero = true) (hx' : x'.isZero = true) (y : Binary64) :
    (x / y).shown = (x' / y).shown := by
  obtain ⟨s, hs, rfl⟩ := exists_finite_of_isZero hx
  obtain ⟨s', hs', rfl⟩ := exists_finite_of_isZero hx'
  cases y with
  | nan => rfl
  | infinity t => rw [finite_div_infinity, finite_div_infinity, shown_ofUnits_zero, shown_ofUnits_zero]
  | finite t v hv =>
      rw [finite_div_finite, finite_div_finite]
      by_cases hzero : v = 0
      · rw [if_pos hzero, if_pos hzero, if_pos rfl, if_pos rfl]
      · have hpos := Nat.pos_of_ne_zero hzero
        rw [if_neg hzero, if_neg hzero, ofRatio, ofRatio, Nat.zero_mul, shown_ofUnitRatio_zero _ hpos,
          shown_ofUnitRatio_zero _ hpos]

theorem add_comm (x y : Binary64) : x + y = y + x := by
  cases x with
  | nan => cases y <;> rfl
  | infinity s =>
      cases y with
      | nan => rfl
      | infinity t => cases s <;> cases t <;> rfl
      | finite t v hv => rfl
  | finite s u hu =>
      cases y with
      | nan => rfl
      | infinity t => rfl
      | finite t v hv => simp only [finite_add_finite, Int.add_comm, Bool.and_comm]

theorem mul_comm (x y : Binary64) : x * y = y * x := by
  cases x with
  | nan => cases y <;> rfl
  | infinity s =>
      cases y with
      | nan => rfl
      | infinity t => cases s <;> cases t <;> rfl
      | finite t v hv => cases s <;> cases t <;> rfl
  | finite s u hu =>
      cases y with
      | nan => rfl
      | infinity t => cases s <;> cases t <;> rfl
      | finite t v hv => rw [finite_mul_finite, finite_mul_finite, Nat.mul_comm, bne_comm]

/-- What does not set the zeros apart hangs on what is shown alone. -/
theorem shown_congr {f : Binary64 → Binary64}
    (hf : ∀ x x', isZero x = true → isZero x' = true → (f x).shown = (f x').shown)
    (h : x.shown = x'.shown) : (f x).shown = (f x').shown := by
  rcases shown_eq_shown_iff.1 h with rfl | ⟨hx, hx'⟩
  · rfl
  · exact hf x x' hx hx'

theorem shown_neg_of_isZero (hx : x.isZero = true) (hx' : x'.isZero = true) : (-x).shown = (-x').shown := by
  obtain ⟨s, hs, rfl⟩ := exists_finite_of_isZero hx
  obtain ⟨s', hs', rfl⟩ := exists_finite_of_isZero hx'
  exact (shown_of_isZero rfl).trans (shown_of_isZero rfl).symm

theorem shown_neg_congr (h : y.shown = y'.shown) : (-y).shown = (-y').shown :=
  shown_congr (fun _ _ => shown_neg_of_isZero) h

theorem shown_add_congr (hx : x.shown = x'.shown) (hy : y.shown = y'.shown) :
    (x + y).shown = (x' + y').shown := by
  calc (x + y).shown = (x' + y).shown :=
        shown_congr (f := (· + y)) (fun _ _ hz hz' => shown_add_of_isZero hz hz' y) hx
    _ = (y + x').shown := by rw [add_comm]
    _ = (y' + x').shown := shown_congr (f := (· + x')) (fun _ _ hz hz' => shown_add_of_isZero hz hz' x') hy
    _ = (x' + y').shown := by rw [add_comm]

theorem shown_mul_congr (hx : x.shown = x'.shown) (hy : y.shown = y'.shown) :
    (x * y).shown = (x' * y').shown := by
  calc (x * y).shown = (x' * y).shown :=
        shown_congr (f := (· * y)) (fun _ _ hz hz' => shown_mul_of_isZero hz hz' y) hx
    _ = (y * x').shown := by rw [mul_comm]
    _ = (y' * x').shown := shown_congr (f := (· * x')) (fun _ _ hz hz' => shown_mul_of_isZero hz hz' x') hy
    _ = (x' * y').shown := by rw [mul_comm]

theorem shown_div_congr (hx : x.shown = x'.shown) (y : Binary64) : (x / y).shown = (x' / y).shown :=
  shown_congr (f := (· / y)) (fun _ _ hz hz' => shown_div_of_isZero hz hz' y) hx

/-- A zero below the line gives an infinity, with the sign of the zero counted, or no number at all. -/
theorem div_of_isZero (x : Binary64) (hy : y.isZero = true) :
    x / y = if x.isZero || x.isNaN then nan else infinity (x.signBit != y.signBit) := by
  obtain ⟨t, ht, rfl⟩ := exists_finite_of_isZero hy
  cases x with
  | nan => rfl
  | infinity s => rfl
  | finite s u hu =>
      rw [finite_div_finite, if_pos rfl]
      cases u with
      | zero => exact if_pos rfl
      | succ u => exact if_neg (Nat.succ_ne_zero u)

/-- The zeros are a sign apart. -/
theorem eq_of_isZero (hx : x.isZero = true) (hy : y.isZero = true) (h : x.signBit = y.signBit) : x = y := by
  obtain ⟨s, hs, rfl⟩ := exists_finite_of_isZero hx
  obtain ⟨t, ht, rfl⟩ := exists_finite_of_isZero hy
  cases h
  rfl

end Binary64

open Binary64 (display_eq_display_iff shown_eq_shown_iff)

/-- Whether an operation divides a number other than zero by two zeros of different sign. -/
structure Operator.PartsZeros (x : Binary64) (op : Operator) (y y' : Binary64) : Prop where
  division : op = .div
  ne_zero : x.isZero = false
  ne_nan : x.isNaN = false
  left : y.isZero = true
  right : y'.isZero = true
  signs : y.signBit ≠ y'.signBit

namespace Operator

variable {x y x' y' : Binary64} {op : Operator}

theorem symbol_injective {op op' : Operator} (h : op.symbol = op'.symbol) : op = op' := by
  apply Option.some.inj
  rw [← ofSymbol?_symbol op, h, ofSymbol?_symbol]

/-- Where the signs of two zeros count, one of the results is the one infinity, the other the other. -/
theorem PartsZeros.apply_eq (h : PartsZeros x op y y') (hx : x.shown = x'.shown) :
    ∃ negative, op.apply x y = .infinity negative ∧ op.apply x' y' = .infinity !negative := by
  obtain ⟨rfl, hzero, hnan, hy, hy', hsigns⟩ := h
  have hsame : x = x' := by
    rcases shown_eq_shown_iff.1 hx with hsame | ⟨hzero', -⟩
    · exact hsame
    · rw [hzero] at hzero'
      cases hzero'
  subst hsame
  have hother : y'.signBit = !y.signBit := Bool.eq_not.2 hsigns.symm
  refine ⟨x.signBit != y.signBit, ?_, ?_⟩
  · rw [apply, Binary64.div_of_isZero x hy, hzero, hnan]
    rfl
  · rw [apply, Binary64.div_of_isZero x hy', hzero, hnan, hother]
    cases x.signBit <;> cases y.signBit <;> rfl

theorem shown_apply_congr (hx : x.shown = x'.shown) (hy : y.shown = y'.shown) (h : ¬PartsZeros x op y y') :
    (op.apply x y).shown = (op.apply x' y').shown := by
  cases op with
  | add => exact Binary64.shown_add_congr hx hy
  | sub => exact Binary64.shown_add_congr hx (Binary64.shown_neg_congr hy)
  | mul => exact Binary64.shown_mul_congr hx hy
  | div =>
      rcases shown_eq_shown_iff.1 hy with rfl | ⟨hzero, hzero'⟩
      · exact Binary64.shown_div_congr hx y
      by_cases hsigns : y.signBit = y'.signBit
      · rw [Binary64.eq_of_isZero hzero hzero' hsigns]
        exact Binary64.shown_div_congr hx y'
      have hnone : (x.isZero || x.isNaN) = true := by
        by_contra hnone
        rw [Bool.not_eq_true, Bool.or_eq_false_iff] at hnone
        exact h ⟨rfl, hnone.1, hnone.2, hzero, hzero', hsigns⟩
      calc (x / y).shown = (x / y').shown := by
            rw [Binary64.div_of_isZero x hzero, Binary64.div_of_isZero x hzero', if_pos hnone, if_pos hnone]
        _ = (x' / y').shown := Binary64.shown_div_congr hx y'

end Operator

namespace Expression

open Operator (PartsZeros)

variable {s t : String} {e f : Evaluation}

/-- Two steps, of one trace or of two, that show the same operands and the same operator show the same
result, unless they divide a number other than zero by zeros of different sign; then one shows the one
infinity and the other the other. -/
theorem steps_agree (hs : evaluate s = .ok e) (ht : evaluate t = .ok f) {x y r x' y' r' : Binary64}
    {op op' : Operator} (hstep : .operation x op y r ∈ e.steps) (hstep' : .operation x' op' y' r' ∈ f.steps)
    (hleft : x.display = x'.display) (hop : op.symbol = op'.symbol) (hright : y.display = y'.display) :
    (r.display = r'.display ↔ ¬PartsZeros x op y y') ∧
      (PartsZeros x op y y' →
        r.display = "Infinity" ∧ r'.display = "-Infinity" ∨
          r.display = "-Infinity" ∧ r'.display = "Infinity") := by
  obtain rfl : op = op' := Operator.symbol_injective hop
  obtain ⟨_, _, _, heq⟩ := exists_operation_of_evaluate hs hstep
  obtain ⟨_, _, _, heq'⟩ := exists_operation_of_evaluate ht hstep'
  cases heq
  cases heq'
  rw [display_eq_display_iff] at hleft hright
  have hparts : PartsZeros x op y y' →
      (op.apply x y).display = "Infinity" ∧ (op.apply x' y').display = "-Infinity" ∨
        (op.apply x y).display = "-Infinity" ∧ (op.apply x' y').display = "Infinity" := by
    intro h
    obtain ⟨negative, hresult, hresult'⟩ := h.apply_eq hleft
    rw [hresult, hresult']
    cases negative with
    | false => exact .inl ⟨rfl, rfl⟩
    | true => exact .inr ⟨rfl, rfl⟩
  refine ⟨⟨fun hsame h => ?_, fun h => ?_⟩, hparts⟩
  · rcases hparts h with ⟨hr, hr'⟩ | ⟨hr, hr'⟩ <;>
    · rw [hr, hr'] at hsame
      exact absurd hsame (by decide)
  · rw [display_eq_display_iff]
    exact Operator.shown_apply_congr hleft hright h

/-- Zeros of different sign, shown alike, in products that are shown alike. -/
theorem steps_agree_product_of_zeros :
    ∃ e f, evaluate "2*0" = .ok e ∧ evaluate "2*(0*(0-1))" = .ok f ∧
      .operation 2 .mul 0 0 ∈ e.steps ∧ .operation 2 .mul (-0) (-0) ∈ f.steps ∧
      (0 : Binary64).display = (-0 : Binary64).display := by
  have hs : evaluate "2*0" = .ok ⟨0, [.operation 2 .mul 0 0]⟩ := by decide +kernel
  have ht : evaluate "2*(0*(0-1))" =
      .ok ⟨-0, [.operation 0 .sub 1 (-1), .operation 0 .mul (-1) (-0), .operation 2 .mul (-0) (-0)]⟩ := by
    decide +kernel
  have hzeros : (0 : Binary64).display = (-0 : Binary64).display := by decide +kernel
  have hstep' : Step.operation 2 .mul (-0) (-0) ∈
      [.operation 0 .sub 1 (-1), .operation 0 .mul (-1) (-0), .operation 2 .mul (-0) (-0)] :=
    .tail _ (.tail _ (.head _))
  have hagree := steps_agree hs ht (.head _) hstep' rfl rfl hzeros
  exact ⟨_, _, hs, ht, .head _, hstep', hagree.1.2 fun h => absurd h.division (by decide)⟩

/-- One trace with two steps that show the same quotient of one by zero, and different results. -/
theorem steps_differ_quotients_by_zeros :
    ∃ e, evaluate "1/0+1/(0*(0-1))" = .ok e ∧
      .operation 1 .div 0 (.infinity false) ∈ e.steps ∧ .operation 1 .div (-0) (.infinity true) ∈ e.steps ∧
      (0 : Binary64).display = (-0 : Binary64).display ∧
      (Binary64.infinity false).display ≠ (Binary64.infinity true).display := by
  have hevaluate : evaluate "1/0+1/(0*(0-1))" =
      .ok ⟨.nan, [.operation 1 .div 0 (.infinity false), .operation 0 .sub 1 (-1),
        .operation 0 .mul (-1) (-0), .operation 1 .div (-0) (.infinity true),
        .operation (.infinity false) .add (.infinity true) .nan]⟩ := by
    decide +kernel
  have hzeros : (0 : Binary64).display = (-0 : Binary64).display := by decide +kernel
  exact ⟨_, hevaluate, .head _, .tail _ (.tail _ (.tail _ (.head _))), hzeros, by decide⟩

end Expression

end Reckoner
