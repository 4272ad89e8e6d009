import Reckoner.Number.Elementary
import Reckoner.Proofs.RoundingOrder

/-! How large a logarithm is. Every term of the series is at most the first, so a logarithm of a ratio is at
most as many ones as the series has terms, and that of a double a few million ones (`natAbs_ln_le`). The
logarithms of the bases are one at least, since the first term of the series already is; so no logarithm of
a positive double is too large for a double, and none is minus infinity (`logBase_ne_minusInfinity`). -/

namespace Reckoner

namespace Fixed

open Binary64 (overflowUnits unitsPerOne)

/-- The power of two behind one, with an exponent that no step of a proof computes. -/
theorem exists_one : ∃ k : Nat, 2 ≤ k ∧ one = 2 ^ k :=
  ⟨2400, by decide, by decide +kernel⟩

theorem four_le_one : 4 ≤ one := by
  obtain ⟨k, hk, hone⟩ := exists_one
  rw [hone]
  exact Nat.pow_le_pow_right (n := 2) (by decide) hk

theorem one_pos : 0 < one :=
  Nat.lt_of_lt_of_le (by decide) four_le_one

/-- No term is larger than the first. -/
theorem artanhTerms_le {square : Nat} (h : square ≤ one) (fuel term odd : Nat) :
    artanhTerms square fuel term odd ≤ fuel * term := by
  induction fuel generalizing term odd with
  | zero => exact Nat.zero_le _
  | succ fuel ih =>
      have hnext : term * square / one ≤ term := by
        apply Nat.div_le_of_le_mul
        rw [Nat.mul_comm]
        exact Nat.mul_le_mul_right term h
      calc artanhTerms square (fuel + 1) term odd
          = term / odd + artanhTerms square fuel (term * square / one) (odd + 2) := rfl
        _ ≤ term + fuel * (term * square / one) := Nat.add_le_add (Nat.div_le_self _ _) (ih _ _)
        _ ≤ term + fuel * term := Nat.add_le_add_left (Nat.mul_le_mul_left _ hnext) _
        _ = (fuel + 1) * term := by ring

theorem le_artanhTerms (square fuel term odd : Nat) :
    term / odd ≤ artanhTerms square (fuel + 1) term odd :=
  Nat.le_add_right _ _

-- the unit and the sums of the series are not computed from here on
attribute [local irreducible] one artanhTerms unitsPerOne

theorem lnRatio_le (n d : Nat) : lnRatio n d ≤ 1600 * one := by
  have hz : (n - d) * one / (n + d) ≤ one := by
    apply Nat.div_le_of_le_mul
    exact Nat.mul_le_mul_right one (by omega)
  simp only [lnRatio]
  generalize (n - d) * one / (n + d) = z at hz ⊢
  have hsquare : z * z / one ≤ one := Nat.div_le_of_le_mul (Nat.mul_le_mul hz hz)
  calc 2 * artanhTerms (z * z / one) 800 z 1 ≤ 2 * (800 * z) :=
        Nat.mul_le_mul_left 2 (artanhTerms_le hsquare 800 z 1)
    _ ≤ 2 * (800 * one) := by gcongr
    _ = 1600 * one := by ring

/-- The first term of the logarithm of two. -/
theorem le_lnTwo : 2 * (one / 3) ≤ lnTwo := by
  have hterm := le_artanhTerms (one / 3 * (one / 3) / one) 799 (one / 3) 1
  rw [Nat.div_one] at hterm
  have hratio : (2 - 1) * one / (2 + 1) = one / 3 := by rw [Nat.one_mul]
  simp only [lnTwo, lnRatio, hratio]
  exact Nat.mul_le_mul_left 2 hterm

theorem lnTwo_le : lnTwo ≤ 1600 * one :=
  lnRatio_le 2 1

/-- The logarithm of a double is some millions at most. -/
theorem natAbs_ln_le {units : Nat} (hunits : units ≠ 0) (h : units < overflowUnits) :
    (ln units).natAbs ≤ 2 ^ 21 * one := by
  obtain ⟨place, hplace, -, hoverflow⟩ := Decimal.exists_place
  rw [hoverflow] at h
  have hlog : units.log2 < 1024 + place := (Nat.log2_lt hunits).2 h
  have hpower : ((units.log2 : Int) - 1074).natAbs ≤ 1074 := by omega
  have hratio := lnRatio_le units (Nat.pow 2 units.log2)
  have htwo := lnTwo_le
  unfold ln
  generalize (units.log2 : Int) - 1074 = power at hpower ⊢
  generalize lnRatio units (Nat.pow 2 units.log2) = ratio at hratio ⊢
  calc ((ratio : Int) + power * lnTwo).natAbs ≤ (ratio : Int).natAbs + (power * lnTwo).natAbs :=
        Int.natAbs_add_le _ _
    _ = ratio + power.natAbs * lnTwo := by rw [Int.natAbs_natCast, Int.natAbs_mul, Int.natAbs_natCast]
    _ ≤ 1600 * one + 1074 * (1600 * one) := by gcongr
    _ ≤ 2 ^ 21 * one := by
        rw [← Nat.mul_assoc, ← Nat.add_mul]
        exact Nat.mul_le_mul_right one (by decide)

/-- Ten is more than eight, so its logarithm is more than three times that of two. -/
theorem one_le_lnTen : (one : Int) ≤ lnTen := by
  obtain ⟨place, hplace, hone, -⟩ := Decimal.exists_place
  have height : 2 ^ (place + 3) ≤ 10 * unitsPerOne := by
    rw [hone, Nat.pow_add, Nat.mul_comm]
    exact Nat.mul_le_mul_right _ (by decide)
  have hne : 10 * unitsPerOne ≠ 0 := Nat.ne_of_gt (Nat.lt_of_lt_of_le (Nat.two_pow_pos _) height)
  have hlog : 3 ≤ ((10 * unitsPerOne).log2 : Int) - 1074 := by
    have hreach := (Nat.le_log2 hne).2 height
    omega
  have htwo := le_lnTwo
  have hfour := four_le_one
  unfold lnTen ln
  generalize ((10 * unitsPerOne).log2 : Int) - 1074 = above at hlog ⊢
  generalize lnRatio (10 * unitsPerOne) (Nat.pow 2 (10 * unitsPerOne).log2) = ratio
  have hmul : 3 * (lnTwo : Int) ≤ above * lnTwo :=
    Int.mul_le_mul_of_nonneg_right hlog (Int.natCast_nonneg _)
  omega

end Fixed

namespace Binary64

/-- A quotient below a power of two that a double holds is rounded to a finite number. -/
theorem exists_finite_ofRatio (negative : Bool) {n d e : Nat} (hd : 0 < d) (he : e < 1024)
    (h : n ≤ 2 ^ e * d) : ∃ u hu, ofRatio negative n d = finite negative u hu := by
  obtain ⟨place, -, hone, hoverflow⟩ := Decimal.exists_place
  have hscaled : n * unitsPerOne ≤ 2 ^ (e + place) * d := by
    calc n * unitsPerOne ≤ 2 ^ e * d * 2 ^ place := by
          rw [hone]
          exact Nat.mul_le_mul_right _ h
      _ = 2 ^ (e + place) * d := by rw [Nat.pow_add, Nat.mul_right_comm]
  have hbound : nearestUnits (n * unitsPerOne) d < overflowUnits := by
    rw [hoverflow]
    exact Nat.lt_of_le_of_lt (nearestUnits_le_two_pow hd hscaled)
      (Nat.pow_lt_pow_right (by decide) (Nat.add_lt_add_right he place))
  have hrep := representable_nearestUnits hbound
  exact ⟨_, hrep, by rw [ofRatio, ofUnitRatio, ofUnits_of_representable negative hrep]⟩

variable {base : Int}

/-- The logarithm of a positive number is finite. -/
theorem exists_finite_logBase (hbase : (Fixed.one : Int) ≤ base) {u : Nat} (hu : Representable u)
    (hunits : u ≠ 0) : ∃ s v hv, logBase base (finite false u hu) = finite s v hv := by
  have hone : Fixed.one ≤ base.natAbs := by omega
  have hle : (Fixed.ln u).natAbs ≤ 2 ^ 21 * base.natAbs :=
    Nat.le_trans (Fixed.natAbs_ln_le hunits hu.1) (Nat.mul_le_mul_left _ hone)
  let negative := false != (decide (Fixed.ln u < 0) != decide (base < 0))
  obtain ⟨v, hv, hfinite⟩ := exists_finite_ofRatio negative
    (Nat.lt_of_lt_of_le Fixed.one_pos hone) (by decide) hle
  refine ⟨negative, v, hv, ?_⟩
  rw [← hfinite, logBase, ofQuotient]

/-- No logarithm of a number other than zero is minus infinity. -/
theorem logBase_ne_minusInfinity (hbase : (Fixed.one : Int) ≤ base) {x : Binary64} (hx : x.isZero = false) :
    logBase base x ≠ infinity true := by
  cases x with
  | nan => rintro ⟨⟩
  | infinity s => cases s <;> rintro ⟨⟩
  | finite s u hu =>
      cases s with
      | true => rintro ⟨⟩
      | false =>
          have hunits : u ≠ 0 := by
            rintro rfl
            cases hx
          obtain ⟨s, v, hv, hfinite⟩ := exists_finite_logBase hbase hu hunits
          rw [hfinite]
          rintro ⟨⟩

end Binary64

end Reckoner
