import Reckoner.Function.Basic
import Reckoner.Proofs.FactorialProducts
import Reckoner.Proofs.LogarithmSize

/-! Where functions have no value. Of the library it is assumed that its functions refuse the operands
outside of their domains and no others, and have a number for a value at every number inside
(`MathLibrary.IsIEEE`); a library of series is one such (`ofSeries_isIEEE`), since a rounded quotient is a
number whatever is divided. What the library refuses is shown as not-a-number, but for the zeros of the
logarithms; the square, the factorial and the constants do not come from the library. A name is looked up in
the table of names, and one that is not there is the only reason to refuse an application
(`apply_domain`). -/

namespace Reckoner

namespace Binary64

theorem ofUnits_ne_nan (negative : Bool) (u : Nat) : ofUnits negative u ≠ nan := by
  rcases ofUnits_cases negative u with heq | ⟨hu, heq⟩
  · rw [heq]
    rintro ⟨⟩
  · rw [heq]
    rintro ⟨⟩

theorem ofUnitRatio_ne_nan (negative : Bool) (n d : Nat) : ofUnitRatio negative n d ≠ nan := by
  rw [ofUnitRatio]
  exact ofUnits_ne_nan negative _

theorem ofQuotient_ne_nan (negative : Bool) (n d : Int) : ofQuotient negative n d ≠ nan := by
  rw [ofQuotient, ofRatio]
  exact ofUnitRatio_ne_nan _ _ _

theorem finite_ne_nan {s : Bool} {u : Nat} {hu : Representable u} : finite s u hu ≠ nan := by
  rintro ⟨⟩

end Binary64

namespace MathLibrary

open Binary64 (nan infinity finite_ne_nan ofQuotient_ne_nan ofUnitRatio_ne_nan Representable)

/-- A function that refuses exactly the operands outside of its domain, and whose value is not-a-number
exactly at not-a-number. -/
structure Regular (outside : Binary64 → Bool) (f : Binary64 → Except DomainError Binary64) : Prop where
  refuses : ∀ x, f x = .error .domainError ↔ outside x = true
  nan_iff : ∀ x y, f x = .ok y → (y = nan ↔ x.isNaN = true)

/-- The operands that a logarithm refuses: both zeros and what is below them. -/
def isUpToZero (x : Binary64) : Bool :=
  x.isZero || x.isBelowZero

/-- What a library promises of its functions: each is regular on its domain, and no logarithm that has a
value is minus infinity. -/
structure IsIEEE [MathLibrary] : Prop where
  sin : Regular Binary64.isInfinite sin
  cos : Regular Binary64.isInfinite cos
  tan : Regular Binary64.isInfinite tan
  log : Regular isUpToZero log
  log10 : Regular isUpToZero log10
  sqrt : Regular Binary64.isBelowZero sqrt
  log_ne : ∀ x, MathLibrary.log x ≠ .ok (infinity true)
  log10_ne : ∀ x, MathLibrary.log10 x ≠ .ok (infinity true)

variable {outside : Binary64 → Bool} {f : Binary64 → Binary64} {x y : Binary64}

theorem refusing_eq_ok (h : refusing outside f x = .ok y) : outside x = false ∧ f x = y := by
  rw [refusing] at h
  split_ifs at h with houtside
  exact ⟨Bool.eq_false_iff.2 houtside, Except.ok.inj h⟩

theorem regular_refusing (h : ∀ x, outside x = false → (f x = nan ↔ x.isNaN = true)) :
    Regular outside (refusing outside f) where
  refuses x := by
    rw [refusing]
    split_ifs with houtside
    · exact iff_of_true rfl houtside
    · exact iff_of_false (by rintro ⟨⟩) houtside
  nan_iff x y hy := by
    obtain ⟨hinside, rfl⟩ := refusing_eq_ok hy
    exact h x hinside

/-- What has a value at all finite numbers is not-a-number at not-a-number alone, but for the infinities. -/
theorem nan_iff_of_finite (hnan : f nan = nan) (hfinite : ∀ s u hu, f (.finite s u hu) ≠ nan)
    (hx : x.isInfinite = false) : f x = nan ↔ x.isNaN = true := by
  cases x with
  | nan => exact iff_of_true hnan rfl
  | infinity s => cases hx
  | finite s u hu => exact iff_of_false (hfinite s u hu) Bool.false_ne_true

theorem logBase_nan_iff (base : Int) (hx : isUpToZero x = false) :
    Binary64.logBase base x = nan ↔ x.isNaN = true := by
  cases x with
  | nan => exact iff_of_true rfl rfl
  | infinity s =>
      cases s with
      | true => cases hx
      | false => exact iff_of_false (by rintro ⟨⟩) Bool.false_ne_true
  | finite s u hu =>
      refine iff_of_false ?_ Bool.false_ne_true
      cases s with
      | false => exact ofQuotient_ne_nan _ _ _
      | true =>
          cases u <;> cases hx

theorem sqrt_nan_iff (hx : x.isBelowZero = false) : x.sqrt = nan ↔ x.isNaN = true := by
  cases x with
  | nan => exact iff_of_true rfl rfl
  | infinity s =>
      cases s with
      | true => cases hx
      | false => exact iff_of_false (by rintro ⟨⟩) Bool.false_ne_true
  | finite s u hu =>
      refine iff_of_false ?_ Bool.false_ne_true
      by_cases hunits : u = 0
      · rw [Binary64.sqrt, if_pos hunits]
        exact finite_ne_nan
      have hsign : ¬s = true := by
        rintro rfl
        simp [Binary64.isBelowZero, hunits] at hx
      rw [Binary64.sqrt, if_neg hunits, if_neg hsign]
      exact ofUnitRatio_ne_nan _ _ _

theorem log_ne_of_series {base : Int} (hbase : (Fixed.one : Int) ≤ base) (x : Binary64) :
    refusing isUpToZero (Binary64.logBase base) x ≠ .ok (infinity true) := by
  intro h
  obtain ⟨hinside, hlog⟩ := refusing_eq_ok h
  exact Binary64.logBase_ne_minusInfinity hbase (Bool.or_eq_false_iff.1 hinside).1 hlog

theorem sin_nan_iff (hx : x.isInfinite = false) : x.sin = nan ↔ x.isNaN = true := by
  refine nan_iff_of_finite rfl (fun s u hu => ?_) hx
  rw [Binary64.sin]
  split_ifs
  · exact finite_ne_nan
  · exact ofQuotient_ne_nan _ _ _

theorem cos_nan_iff (hx : x.isInfinite = false) : x.cos = nan ↔ x.isNaN = true := by
  refine nan_iff_of_finite rfl (fun s u hu => ?_) hx
  rw [Binary64.cos]
  exact ofQuotient_ne_nan _ _ _

theorem tan_nan_iff (hx : x.isInfinite = false) : x.tan = nan ↔ x.isNaN = true := by
  refine nan_iff_of_finite rfl (fun s u hu => ?_) hx
  rw [Binary64.tan]
  split_ifs
  · exact finite_ne_nan
  · obtain ⟨sine, cosine⟩ := Fixed.sinCos u
    exact ofQuotient_ne_nan _ _ _

/-- The library of series keeps what is promised. -/
theorem ofSeries_isIEEE : @IsIEEE ofSeries :=
  letI := ofSeries
  { sin := regular_refusing fun _ => sin_nan_iff
    cos := regular_refusing fun _ => cos_nan_iff
    tan := regular_refusing fun _ => tan_nan_iff
    log := regular_refusing fun _ => logBase_nan_iff _
    log10 := regular_refusing fun _ => logBase_nan_iff _
    sqrt := regular_refusing fun _ => sqrt_nan_iff
    log_ne := log_ne_of_series (Int.le_refl _)
    log10_ne := log_ne_of_series Fixed.one_le_lnTen }

end MathLibrary

namespace Binary64

variable {x : Binary64}

theorem isBelowZero_finite {s : Bool} {u : Nat} {hu : Representable u} :
    (finite s u hu).isBelowZero = true ↔ s = true ∧ u ≠ 0 := by
  simp [isBelowZero]

theorem FromOne.ne_nan (hx : FromOne x) : x ≠ nan := by
  cases hx with
  | infinity => rintro ⟨⟩
  | finite hu hle => exact finite_ne_nan

/-- The product of a factorial is a number, whatever it is the factorial of. -/
theorem factorial_eq_nan_iff : x.factorial = nan ↔ x.isNaN = true ∨ x.isBelowZero = true := by
  by_cases hguard : x.isNaN = true ∨ x.isBelowZero = true
  · refine iff_of_true ?_ hguard
    rw [factorial, if_pos (by simpa using hguard)]
  refine iff_of_false ?_ hguard
  rw [not_or] at hguard
  cases x with
  | nan => exact absurd rfl hguard.1
  | infinity s =>
      cases s with
      | true => exact absurd rfl hguard.2
      | false => rintro ⟨⟩
  | finite s u hu =>
      have hunits : 0 ≤ signedUnits s u := by
        rw [isBelowZero_finite, not_and, not_not] at hguard
        cases s with
        | false => exact Int.natCast_nonneg u
        | true => rw [hguard.2 rfl]; decide
      rw [factorial_eq_fullProduct hunits]
      exact (fromOne_fullProduct _).ne_nan

theorem mul_self_eq_nan_iff : x * x = nan ↔ x.isNaN = true := by
  cases x with
  | nan => exact iff_of_true rfl rfl
  | infinity s => exact iff_of_false (by rintro ⟨⟩) Bool.false_ne_true
  | finite s u hu =>
      rw [finite_mul_finite]
      exact iff_of_false (ofUnitRatio_ne_nan _ _ _) Bool.false_ne_true

end Binary64

namespace UnaryFunction

open Binary64 (nan infinity)
open MathLibrary (Regular IsIEEE isUpToZero)

/-- Where a function has no value. -/
def IsUndefinedAt : UnaryFunction → Binary64 → Prop
  | sine, x | cosine, x | tangent, x => x.isNaN = true ∨ x.isInfinite = true
  | decimalLogarithm, x | naturalLogarithm, x | squareRoot, x | factorial, x =>
    x.isNaN = true ∨ x.isBelowZero = true
  | square, x => x.isNaN = true
  | circleConstant, _ | eulerConstant, _ => False

/-- Whether a function is a logarithm. -/
def IsLogarithm (f : UnaryFunction) : Prop :=
  f = decimalLogarithm ∨ f = naturalLogarithm

theorem ofName?_of_mem {name : String} {f : UnaryFunction} (h : (name, f) ∈ names) : ofName? name = some f := by
  have hnames : ∀ entry ∈ names, ofName? entry.1 = some entry.2 := by decide
  exact hnames (name, f) h

theorem ofName?_eq_none_iff {name : String} : ofName? name = none ↔ name ∉ names.map Prod.fst := by
  rw [ofName?, Option.map_eq_none_iff, List.find?_eq_none, List.mem_map]
  constructor
  · rintro hnone ⟨entry, hentry, rfl⟩
    exact hnone entry hentry (decide_eq_true rfl)
  · intro hname entry hentry hmatch
    exact hname ⟨entry, hentry, of_decide_eq_true hmatch⟩

variable {f : Binary64 → Except DomainError Binary64} {outside : Binary64 → Bool} {x : Binary64}

/-- A regular function is shown as not-a-number outside of its domain, and at not-a-number. -/
theorem shown_eq_nan_iff (hf : Regular outside f) :
    shown (f x) = nan ↔ x.isNaN = true ∨ outside x = true := by
  cases hx : f x with
  | error e =>
      obtain ⟨⟩ := e
      exact iff_of_true rfl (.inr ((hf.refuses x).1 hx))
  | ok y =>
      have hinside : ¬outside x = true := by
        rw [← hf.refuses, hx]
        rintro ⟨⟩
      rw [shown, hf.nan_iff x y hx, or_iff_left hinside]

theorem shown_logarithm_eq_nan_iff (hf : Regular isUpToZero f) :
    shown (logarithm f x) = nan ↔ x.isNaN = true ∨ x.isBelowZero = true := by
  rw [logarithm]
  split_ifs with hzero
  · refine iff_of_false (by rintro ⟨⟩) ?_
    rcases x with _ | _ | ⟨s, _ | u, hu⟩
    · cases hzero
    · cases hzero
    · cases s <;> rintro (⟨⟨⟩⟩ | ⟨⟨⟩⟩)
    · cases hzero
  · rw [shown_eq_nan_iff hf, isUpToZero, Bool.or_eq_true, or_iff_right hzero]

theorem shown_logarithm_eq_minusInfinity_iff (hf : ∀ x, f x ≠ .ok (infinity true)) :
    shown (logarithm f x) = infinity true ↔ x.isZero = true := by
  rw [logarithm]
  split_ifs with hzero
  · exact iff_of_true rfl hzero
  · refine iff_of_false ?_ hzero
    cases hx : f x with
    | error e =>
        obtain ⟨⟩ := e
        rintro ⟨⟩
    | ok y =>
        rw [shown]
        rintro rfl
        exact hf x hx

theorem value_eq_nan_iff [MathLibrary] (library : IsIEEE) (f : UnaryFunction) (x : Binary64) :
    f.value x = nan ↔ f.IsUndefinedAt x := by
  cases f with
  | sine => exact shown_eq_nan_iff library.sin
  | cosine => exact shown_eq_nan_iff library.cos
  | tangent => exact shown_eq_nan_iff library.tan
  | decimalLogarithm => exact shown_logarithm_eq_nan_iff library.log10
  | naturalLogarithm => exact shown_logarithm_eq_nan_iff library.log
  | squareRoot => exact shown_eq_nan_iff library.sqrt
  | square => exact Binary64.mul_self_eq_nan_iff
  | factorial => exact Binary64.factorial_eq_nan_iff
  | circleConstant =>
      refine iff_of_false ?_ id
      rw [value, eval, shown, pi, Decimal.toBinary64_eq_ofUnits]
      exact Binary64.ofUnits_ne_nan _ _
  | eulerConstant =>
      refine iff_of_false ?_ id
      rw [value, eval, shown, e, Decimal.toBinary64_eq_ofUnits]
      exact Binary64.ofUnits_ne_nan _ _

theorem value_eq_minusInfinity_iff [MathLibrary] (library : IsIEEE) {f : UnaryFunction} (hf : f.IsLogarithm)
    (x : Binary64) : f.value x = infinity true ↔ x.isZero = true := by
  rcases hf with rfl | rfl
  · exact shown_logarithm_eq_minusInfinity_iff library.log10_ne
  · exact shown_logarithm_eq_minusInfinity_iff library.log_ne

/-- With a library that keeps its promises, a function is applied under each of its names at every number, in
one step that shows the name, the number and the value. The value is not-a-number where the function is
undefined and nowhere else, and minus infinity under the names of a logarithm exactly at the zeros. No other
name is applied. -/
theorem apply_domain [MathLibrary] (library : IsIEEE) (name : String) (x : Binary64) :
    (∀ error, apply name x = .error error ↔
        name ∉ names.map Prod.fst ∧ error = .unknownFunction name) ∧
      (CalculationError.unknownFunction name).kind = "InvalidExpression" ∧
      ∀ f, (name, f) ∈ names → ∃ value, apply name x = .ok ⟨value, [.application name x value]⟩ ∧
        (value = nan ↔ f.IsUndefinedAt x) ∧
        (f.IsLogarithm → (value = infinity true ↔ x.isZero = true)) := by
  refine ⟨fun error => ?_, rfl, fun f hf => ?_⟩
  · rw [← ofName?_eq_none_iff, apply]
    cases hname : ofName? name with
    | none => simp [eq_comm]
    | some f => simp
  · refine ⟨f.value x, ?_, value_eq_nan_iff library f x, fun hlog => value_eq_minusInfinity_iff library hlog x⟩
    rw [apply, ofName?_of_mem hf]

/-- With the library of series, a root of a number below zero is refused by the library and shown as
not-a-number, and the logarithm of minus zero is not asked of it. -/
theorem apply_domain_of_series :
    letI := MathLibrary.ofSeries
    IsIEEE ∧ MathLibrary.sqrt (-1) = .error .domainError ∧
      apply "sqrt" (-1) = .ok ⟨nan, [.application "sqrt" (-1) nan]⟩ ∧
      MathLibrary.log (-0) = .error .domainError ∧
      apply "ln" (-0) = .ok ⟨infinity true, [.application "ln" (-0) (infinity true)]⟩ ∧
      apply "cot" 1 = .error (.unknownFunction "cot") := by
  let _ := MathLibrary.ofSeries
  have library : IsIEEE := MathLibrary.ofSeries_isIEEE
  obtain ⟨root, hroot, hnan, -⟩ := (apply_domain library "sqrt" (-1)).2.2 squareRoot (by decide)
  obtain ⟨log, hlog, -, hminus⟩ := (apply_domain library "ln" (-0)).2.2 naturalLogarithm (by decide)
  rw [hnan.2 (.inr (by decide +kernel))] at hroot
  rw [(hminus (.inr rfl)).2 (by decide +kernel)] at hlog
  exact ⟨library, by decide +kernel, hroot, by decide +kernel, hlog,
    ((apply_domain library "cot" 1).1 _).2 ⟨by decide, rfl⟩⟩

end UnaryFunction

end Reckoner
