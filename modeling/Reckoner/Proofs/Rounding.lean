import Mathlib
import Reckoner.Number.Decimal

/-! Rounding, once and to the nearest. A rounded quotient hangs on the ratio of its two numbers alone, it
is the quotient itself where that is exact, it never falls below a power of two that the quotient
reaches, and it is zero below half a unit. With these the limits at which a decimal counts as an infinity
or as zero are seen to change nothing: every decimal becomes the double of its nearest number of units
(`toBinary64_eq_ofUnits`). -/

namespace Reckoner

namespace Binary64

theorem roundDiv_mul_right (n d : Nat) {k : Nat} (hk : 0 < k) :
    roundDiv (n * k) (d * k) = roundDiv n d := by
  have hless : 2 * (n % d * k) < d * k ↔ 2 * (n % d) < d := by
    rw [← Nat.mul_assoc, Nat.mul_lt_mul_right hk]
  have hmore : d * k < 2 * (n % d * k) ↔ d < 2 * (n % d) := by
    rw [← Nat.mul_assoc, Nat.mul_lt_mul_right hk]
  simp only [roundDiv, Nat.mul_div_mul_right n d hk, Nat.mul_mod_mul_right, hless, hmore]

theorem roundDiv_mul_self (q : Nat) {d : Nat} (hd : 0 < d) : roundDiv (q * d) d = q := by
  simp only [roundDiv, Nat.mul_div_cancel q hd, Nat.mul_mod_left, Nat.mul_zero, if_pos hd]

theorem roundDiv_eq_zero {n d : Nat} (h : 2 * n < d) : roundDiv n d = 0 := by
  have hn : n < d := by omega
  simp only [roundDiv, Nat.div_eq_of_lt hn, Nat.mod_eq_of_lt hn, if_pos h]

theorem div_le_roundDiv (n d : Nat) : n / d ≤ roundDiv n d := by
  simp only [roundDiv]
  split
  · exact Nat.le_refl _
  · split
    · exact Nat.le_succ _
    · exact Nat.le_add_right _ _

/-- The spacing of the doubles about a number of units. -/
theorem spacing_pos (n : Nat) : 0 < Nat.pow 2 (n.log2 - 52) :=
  Nat.pow_pos (by decide)

theorem nearestUnits_mul_right (n d : Nat) {k : Nat} (hk : 0 < k) :
    nearestUnits (n * k) (d * k) = nearestUnits n d := by
  simp only [nearestUnits, Nat.mul_div_mul_right n d hk]
  rw [Nat.mul_right_comm d k, roundDiv_mul_right _ _ hk]

/-- Fractions of one ratio are rounded alike. -/
theorem nearestUnits_congr {n d n' d' : Nat} (hd : 0 < d) (hd' : 0 < d') (h : n * d' = n' * d) :
    nearestUnits n d = nearestUnits n' d' := by
  rw [← nearestUnits_mul_right n d hd', h, Nat.mul_comm d d', nearestUnits_mul_right n' d' hd]

/-- A number of units that a double holds is not rounded. -/
theorem nearestUnits_of_representable {u d : Nat} (h : Representable u) (hd : 0 < d) :
    nearestUnits (u * d) d = u := by
  obtain ⟨q, hq⟩ := h.2
  have hspacing := spacing_pos u
  simp only [nearestUnits, Nat.mul_div_cancel u hd]
  generalize Nat.pow 2 (u.log2 - 52) = spacing at hq hspacing ⊢
  have hproduct : u * d = q * (d * spacing) := by
    rw [hq, Nat.mul_comm spacing q, Nat.mul_assoc, Nat.mul_comm spacing d]
  rw [hproduct, roundDiv_mul_self q (Nat.mul_pos hd hspacing), hq, Nat.mul_comm]

theorem nearestUnits_eq_zero {n d : Nat} (h : 2 * n < d) : nearestUnits n d = 0 := by
  have hquotient : n / d = 0 := Nat.div_eq_of_lt (by omega)
  have hspacing : Nat.pow 2 (Nat.log2 0 - 52) = 1 := rfl
  simp only [nearestUnits, hquotient, hspacing, Nat.mul_one, roundDiv_eq_zero h]

theorem two_pow_le_nearestUnits {n d e : Nat} (hd : 0 < d) (h : 2 ^ e * d ≤ n) :
    2 ^ e ≤ nearestUnits n d := by
  have hreach : 2 ^ e ≤ n / d := (Nat.le_div_iff_mul_le hd).2 h
  have hne : n / d ≠ 0 := Nat.ne_of_gt (Nat.lt_of_lt_of_le (Nat.pow_pos (by decide)) hreach)
  have hplace : e ≤ (n / d).log2 := (Nat.le_log2 hne).2 hreach
  have hlead : 2 ^ (n / d).log2 ≤ n / d := Nat.log2_self_le hne
  have hdvd : 2 ^ ((n / d).log2 - 52) ∣ 2 ^ (n / d).log2 := Nat.pow_dvd_pow 2 (Nat.sub_le _ _)
  simp only [nearestUnits, Nat.pow_eq]
  generalize 2 ^ ((n / d).log2 - 52) = spacing at hdvd ⊢
  calc 2 ^ e ≤ 2 ^ (n / d).log2 := Nat.pow_le_pow_right (by decide) hplace
    _ = 2 ^ (n / d).log2 / spacing * spacing := (Nat.div_mul_cancel hdvd).symm
    _ ≤ n / d / spacing * spacing := Nat.mul_le_mul_right _ (Nat.div_le_div_right hlead)
    _ = n / (d * spacing) * spacing := by rw [Nat.div_div_eq_div_mul]
    _ ≤ roundDiv n (d * spacing) * spacing := Nat.mul_le_mul_right _ (div_le_roundDiv _ _)

theorem ofUnits_of_representable {u : Nat} (negative : Bool) (h : Representable u) :
    ofUnits negative u = .finite negative u h :=
  dif_pos h

theorem ofUnits_of_overflow {u : Nat} (negative : Bool) (h : overflowUnits ≤ u) :
    ofUnits negative u = .infinity negative :=
  dif_neg fun hu => absurd hu.1 (Nat.not_lt.2 h)

end Binary64

namespace Decimal

open Binary64 (unitsPerOne overflowUnits ofUnits)

/-- The powers of two behind one and behind the least number too large. The exponent is a variable, so
that no step of a proof computes them. -/
theorem exists_place : ∃ place : Nat, place = 1074 ∧ unitsPerOne = 2 ^ place ∧
    overflowUnits = 2 ^ (1024 + place) :=
  ⟨1074, rfl, by decide +kernel⟩

theorem unitsPerOne_pos : 0 < unitsPerOne := by
  obtain ⟨place, -, hone, -⟩ := exists_place
  rw [hone]
  exact Nat.two_pow_pos place

/-- The units of a decimal as one fraction, whatever the sign of its exponent. -/
theorem nearestUnits_eq (d : Decimal) :
    d.nearestUnits = Binary64.nearestUnits (d.digits * 10 ^ d.exponent.toNat * unitsPerOne)
      (10 ^ (-d.exponent).toNat) := by
  obtain ⟨n, e⟩ := d
  cases e with
  | ofNat e => simp [nearestUnits, unitFraction, Nat.pow_eq]
  | negSucc e => simp [nearestUnits, unitFraction, Nat.pow_eq]

/-- Zeros after the digits are made up for by the exponent. -/
theorem nearestUnits_scale (n k : Nat) (e : Int) :
    nearestUnits ⟨n * 10 ^ k, e - k⟩ = nearestUnits ⟨n, e⟩ := by
  have hplaces : k + (e - k).toNat + (-e).toNat = e.toNat + (-(e - k)).toNat := by omega
  have hpowers : 10 ^ k * 10 ^ (e - k).toNat * 10 ^ (-e).toNat =
      10 ^ e.toNat * 10 ^ (-(e - k)).toNat := by
    rw [← Nat.pow_add, ← Nat.pow_add, ← Nat.pow_add, hplaces]
  rw [nearestUnits_eq, nearestUnits_eq]
  refine Binary64.nearestUnits_congr (Nat.pow_pos (by decide)) (Nat.pow_pos (by decide)) ?_
  generalize unitsPerOne = units
  calc n * 10 ^ k * 10 ^ (e - k).toNat * units * 10 ^ (-e).toNat
      = n * units * (10 ^ k * 10 ^ (e - k).toNat * 10 ^ (-e).toNat) := by ac_rfl
    _ = n * units * (10 ^ e.toNat * 10 ^ (-(e - k)).toNat) := by rw [hpowers]
    _ = n * 10 ^ e.toNat * units * 10 ^ (-(e - k)).toNat := by ac_rfl

theorem nearestUnits_zero (e : Int) : nearestUnits ⟨0, e⟩ = 0 := by
  rw [nearestUnits_eq]
  refine Binary64.nearestUnits_eq_zero ?_
  rw [Nat.zero_mul, Nat.zero_mul]
  exact Nat.pow_pos (by decide)

theorem two_pow_le_ten_pow {e : Nat} (h : 310 ≤ e) : 2 ^ 1024 ≤ 10 ^ e := by
  induction h with
  | refl => decide +kernel
  | @step e _ ih => exact Nat.le_trans ih (Nat.pow_le_pow_right (by decide) (Nat.le_succ e))

/-- A positive decimal from `10 ^ 310` on is too large for a double. -/
theorem overflowUnits_le_nearestUnits {d : Decimal} (hdigits : d.digits ≠ 0) (h : 310 ≤ d.exponent) :
    overflowUnits ≤ d.nearestUnits := by
  obtain ⟨place, -, hone, hoverflow⟩ := exists_place
  have hreach : 2 ^ 1024 ≤ d.digits * 10 ^ d.exponent.toNat :=
    Nat.le_trans (two_pow_le_ten_pow (by omega)) (Nat.le_mul_of_pos_left _ (Nat.pos_of_ne_zero hdigits))
  have hzero : (-d.exponent).toNat = 0 := by omega
  rw [nearestUnits_eq, hoverflow, hone, hzero]
  generalize 1024 = top at hreach ⊢
  refine Binary64.two_pow_le_nearestUnits (Nat.pow_pos (by decide)) ?_
  rw [Nat.pow_zero, Nat.mul_one, Nat.pow_add]
  exact Nat.mul_le_mul_right _ hreach

/-- A decimal that its bit length and its power of ten keep below half a unit is nearest to zero. -/
theorem nearestUnits_of_small {d : Decimal} (h : d.digits.log2 + 3 * d.exponent < -1100) :
    d.nearestUnits = 0 := by
  obtain ⟨place, hplace, hone, -⟩ := exists_place
  have hzero : d.exponent.toNat = 0 := by omega
  have hdigits : d.digits < 2 ^ (d.digits.log2 + 1) := Nat.lt_log2_self
  have hplaces : d.digits.log2 + 1 + place + 1 ≤ 3 * (-d.exponent).toNat := by omega
  rw [nearestUnits_eq, hzero, Nat.pow_zero, Nat.mul_one, hone]
  refine Binary64.nearestUnits_eq_zero ?_
  calc 2 * (d.digits * 2 ^ place) < 2 * (2 ^ (d.digits.log2 + 1) * 2 ^ place) :=
        Nat.mul_lt_mul_of_pos_left (Nat.mul_lt_mul_of_pos_right hdigits (Nat.two_pow_pos _))
          (by decide)
    _ = 2 ^ (d.digits.log2 + 1 + place + 1) := by rw [← Nat.pow_add, ← Nat.pow_succ']
    _ ≤ 2 ^ (3 * (-d.exponent).toNat) := Nat.pow_le_pow_right (by decide) hplaces
    _ = 8 ^ (-d.exponent).toNat := by rw [Nat.pow_mul]
    _ ≤ 10 ^ (-d.exponent).toNat := Nat.pow_le_pow_left (by decide) _

/-- The limits of reading change nothing: a decimal becomes the double of its nearest number of units. -/
theorem toBinary64_eq_ofUnits (d : Decimal) (negative : Bool) :
    d.toBinary64 negative = ofUnits negative d.nearestUnits := by
  rw [toBinary64]
  by_cases hdigits : d.digits = 0
  · obtain ⟨n, e⟩ := d
    cases hdigits
    rw [if_pos rfl, nearestUnits_zero]
  rw [if_neg hdigits]
  by_cases hlarge : 310 ≤ d.exponent
  · rw [if_pos hlarge,
      Binary64.ofUnits_of_overflow negative (overflowUnits_le_nearestUnits hdigits hlarge)]
  rw [if_neg hlarge]
  by_cases hsmall : d.digits.log2 + 3 * d.exponent < -1100
  · rw [if_pos hsmall, nearestUnits_of_small hsmall]
  · rw [if_neg hsmall]

end Decimal

end Reckoner
