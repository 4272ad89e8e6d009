import Mathlib.Tactic.Ring
import Reckoner.Proofs.LogarithmSize

/-! How many terms of a series are enough. Those of the arctangent and of the logarithm shrink to nothing within
the number of terms that is summed, so more of them change nothing (`arctanInverse_eq`, `lnRatio_eq`). Those of
sine and cosine are rounded down and may stay at minus one; more of them change the sum by one unit in the last
place at most (`sinCosNear_sub_le`), for an angle between minus one and one, as all of them are that are
summed (`natAbs_reduced_le`). -/

namespace Reckoner

namespace Fixed

theorem arctanTerms_zero (square fuel odd : Nat) : arctanTerms square fuel 0 odd = 0 := by
  induction fuel generalizing odd with
  | zero => rfl
  | succ fuel ih =>
      rw [arctanTerms, Nat.zero_div, Nat.zero_div, ih]
      rfl

/-- Every term is smaller than the one before by the square, so the terms come to an end. -/
theorem arctanTerms_add {square fuel term : Nat} (h : term < square ^ fuel) (more odd : Nat) :
    arctanTerms square (fuel + more) term odd = arctanTerms square fuel term odd := by
  induction fuel generalizing term odd with
  | zero =>
      rw [Nat.lt_one_iff.1 h, arctanTerms_zero, arctanTerms_zero]
  | succ fuel ih =>
      have hnext : term / square < square ^ fuel := by
        apply Nat.div_lt_of_lt_mul
        rw [← Nat.pow_succ']
        exact h
      rw [Nat.add_right_comm, arctanTerms, arctanTerms, ih hnext]

theorem artanhTerms_zero (square fuel odd : Nat) : artanhTerms square fuel 0 odd = 0 := by
  induction fuel generalizing odd with
  | zero => rfl
  | succ fuel ih => rw [artanhTerms, Nat.zero_mul, Nat.zero_div, Nat.zero_div, ih]

theorem artanhTerms_add {square fuel term : Nat} (hsquare : 9 * square ≤ one) (h : term < 9 ^ fuel)
    (more odd : Nat) :
    artanhTerms square (fuel + more) term odd = artanhTerms square fuel term odd := by
  induction fuel generalizing term odd with
  | zero =>
      rw [Nat.lt_one_iff.1 h, artanhTerms_zero, artanhTerms_zero]
  | succ fuel ih =>
      have hnext : term * square / one < 9 ^ fuel := by
        apply Nat.div_lt_of_lt_mul
        refine Nat.lt_of_mul_lt_mul_left (a := 9) ?_
        calc 9 * (term * square) = term * (9 * square) := by ring
          _ ≤ term * one := Nat.mul_le_mul_left term hsquare
          _ < 9 ^ (fuel + 1) * one := Nat.mul_lt_mul_of_pos_right h one_pos
          _ = 9 * (one * 9 ^ fuel) := by ring
      rw [Nat.add_right_comm, artanhTerms, artanhTerms, ih hnext]

/-- What the terms of sine and cosine are divided by, all in all. -/
def termDivisors (n : Nat) : Nat → Nat
  | 0 => 1
  | fuel + 1 => (n + 1) * (n + 2) * termDivisors (n + 2) fuel

theorem termDivisors_pos (n fuel : Nat) : 0 < termDivisors n fuel := by
  induction fuel generalizing n with
  | zero => exact Nat.one_pos
  | succ fuel ih => exact Nat.mul_pos (Nat.mul_pos (Nat.succ_pos _) (Nat.succ_pos _)) (ih _)

/-- The term after one. -/
def nextTerm (square term : Int) (n : Nat) : Int :=
  term * square / one / ((n + 1) * (n + 2) : Nat)

theorem alternatingTerms_succ (square term : Int) (fuel n : Nat) :
    alternatingTerms square (fuel + 1) term n =
      term - alternatingTerms square fuel (nextTerm square term n) (n + 2) :=
  rfl

section

-- the unit is not computed in what follows
attribute [local irreducible] one

theorem cast_one_pos : (0 : Int) < one :=
  Int.ofNat_lt.2 one_pos

theorem divisor_pos (n : Nat) : (0 : Int) < ((n + 1) * (n + 2) : Nat) :=
  Int.ofNat_lt.2 (Nat.mul_pos (Nat.succ_pos _) (Nat.succ_pos _))

variable {square term : Int}

/-- Terms below zero do not fall. -/
theorem nextTerm_of_nonpos (hzero : 0 ≤ square) (hone : square ≤ one) (hterm : term ≤ 0) (n : Nat) :
    term ≤ nextTerm square term n ∧ nextTerm square term n ≤ 0 := by
  have hproduct : term ≤ term * square / one :=
    Int.le_ediv_of_mul_le cast_one_pos (Int.mul_le_mul_of_nonpos_left hterm hone)
  have hnonpos : term * square / one ≤ 0 := by
    refine Int.ediv_le_of_le_mul cast_one_pos ?_
    rw [Int.zero_mul]
    exact Int.mul_nonpos_of_nonpos_of_nonneg hterm hzero
  have hdivisor : (1 : Int) ≤ ((n + 1) * (n + 2) : Nat) := divisor_pos n
  refine ⟨hproduct.trans (Int.le_ediv_of_mul_le (divisor_pos n) ?_), Int.ediv_le_of_le_mul (divisor_pos n) ?_⟩
  · exact (Int.mul_le_mul_of_nonpos_left hnonpos hdivisor).trans (Int.mul_one _).le
  · rw [Int.zero_mul]
    exact hnonpos

theorem alternatingTerms_of_nonpos (hzero : 0 ≤ square) (hone : square ≤ one) (hterm : term ≤ 0)
    (fuel n : Nat) :
    term ≤ alternatingTerms square fuel term n ∧ alternatingTerms square fuel term n ≤ 0 := by
  induction fuel generalizing term n with
  | zero => exact ⟨hterm, Int.le_refl 0⟩
  | succ fuel ih =>
      obtain ⟨hlow, hhigh⟩ := nextTerm_of_nonpos hzero hone hterm n
      obtain ⟨hlow', hhigh'⟩ := ih hhigh (n + 2)
      rw [alternatingTerms_succ]
      omega

/-- A bound of a term becomes smaller by the divisor. -/
theorem nextTerm_bounds (hzero : 0 ≤ square) (hone : square ≤ one) {n bound : Nat} (hbound : 0 < bound)
    (hlow : -(((n + 1) * (n + 2) * bound : Nat) : Int) ≤ term)
    (hhigh : term < ((n + 1) * (n + 2) * bound : Nat)) :
    -(bound : Int) ≤ nextTerm square term n ∧ nextTerm square term n < bound := by
  have hsplit : (((n + 1) * (n + 2) * bound : Nat) : Int) = bound * ((n + 1) * (n + 2) : Nat) := by
    rw [Int.natCast_mul, Int.mul_comm]
  rw [hsplit] at hlow hhigh
  have hlarge : 0 < (bound * ((n + 1) * (n + 2) : Nat) : Int) * one :=
    Int.mul_pos (Int.mul_pos (Int.ofNat_lt.2 hbound) (divisor_pos n)) cast_one_pos
  have hlow' := Int.mul_le_mul_of_nonneg_right hlow cast_one_pos.le
  have hhigh' := Int.mul_lt_mul_of_pos_right hhigh cast_one_pos
  rw [Int.neg_mul] at hlow'
  have hproduct : term * one ≤ term * square ∧ term * square ≤ 0 ∨
      0 ≤ term * square ∧ term * square ≤ term * one := by
    rcases Int.le_total term 0 with hterm | hterm
    · exact Or.inl ⟨Int.mul_le_mul_of_nonpos_left hterm hone,
        Int.mul_nonpos_of_nonpos_of_nonneg hterm hzero⟩
    · exact Or.inr ⟨Int.mul_nonneg hterm hzero, Int.mul_le_mul_of_nonneg_left hone hterm⟩
  refine ⟨Int.le_ediv_of_mul_le (divisor_pos n) (Int.le_ediv_of_mul_le cast_one_pos ?_),
    Int.ediv_lt_of_lt_mul (divisor_pos n) (Int.ediv_lt_of_lt_mul cast_one_pos ?_)⟩
  · rw [Int.neg_mul, Int.neg_mul]
    omega
  · omega

/-- Once the terms have shrunk to zero or minus one, further ones change the sum by one at most. -/
theorem alternatingTerms_add_sub_le (hzero : 0 ≤ square) (hone : square ≤ one) {fuel n : Nat}
    (hlow : -(termDivisors n fuel : Int) ≤ term) (hhigh : term < termDivisors n fuel) (more : Nat) :
    (alternatingTerms square (fuel + more) term n - alternatingTerms square fuel term n).natAbs ≤ 1 := by
  induction fuel generalizing term n with
  | zero =>
      have hone' : (termDivisors n 0 : Int) = 1 := rfl
      have hnone : alternatingTerms square 0 term n = 0 := rfl
      rw [hone'] at hlow hhigh
      obtain ⟨hlow', hhigh'⟩ :=
        alternatingTerms_of_nonpos hzero hone (Int.lt_add_one_iff.1 hhigh) (0 + more) n
      omega
  | succ fuel ih =>
      obtain ⟨hlow', hhigh'⟩ := nextTerm_bounds hzero hone (termDivisors_pos (n + 2) fuel) hlow hhigh
      have hnext := ih hlow' hhigh'
      rw [Nat.add_right_comm, alternatingTerms_succ, alternatingTerms_succ]
      omega

end

/-! ### The sums -/

theorem one_lt_pow {base : Nat} (h : 25 ≤ base) : one < base ^ 600 := by
  have hpower : ∀ k, k ≠ 0 → 16 ^ k < base ^ k := fun k hk => Nat.pow_lt_pow_left (by omega) hk
  have hone : one = 16 ^ 600 := by decide +kernel
  exact hone.trans_lt (hpower 600 (by decide))

/-- More terms of the arctangent of `1 / n` change nothing. -/
theorem arctanInverse_eq {n : Nat} (h : 5 ≤ n) (more : Nat) :
    arctanTerms (n * n) (600 + more) (one / n) 1 = arctanInverse n :=
  arctanTerms_add (Nat.lt_of_le_of_lt (Nat.div_le_self one n) (one_lt_pow (Nat.mul_le_mul h h))) more 1

section

attribute [local irreducible] one artanhTerms alternatingTerms

/-- More terms of the logarithm of a ratio between one and two change nothing. -/
theorem lnRatio_eq {n d : Nat} (h : n ≤ 2 * d) (more : Nat) :
    let z := (n - d) * one / (n + d)
    2 * artanhTerms (z * z / one) (800 + more) z 1 = lnRatio n d := by
  intro z
  have hz : 3 * z ≤ one := by
    refine (Nat.mul_div_le_mul_div_assoc 3 _ _).trans (Nat.div_le_of_le_mul ?_)
    rw [← Nat.mul_assoc]
    exact Nat.mul_le_mul_right one (by omega)
  have hsquare : 9 * (z * z / one) ≤ one := by
    refine (Nat.mul_div_le_mul_div_assoc 9 _ _).trans (Nat.div_le_of_le_mul ?_)
    calc 9 * (z * z) = 3 * z * (3 * z) := by ring
      _ ≤ one * one := Nat.mul_le_mul hz hz
  have hlt : z < 9 ^ 800 := by
    have hone : one < 9 ^ 800 := by decide +kernel
    omega
  rw [artanhTerms_add hsquare hlt]
  rfl

/-- More terms of sine and cosine change them by one unit in the last place at most. -/
theorem sinCosNear_sub_le {angle : Int} (h : angle.natAbs ≤ one) (more : Nat) :
    let square := angle * angle / one
    (alternatingTerms square (200 + more) angle 1 - (sinCosNear angle).1).natAbs ≤ 1 ∧
      (alternatingTerms square (200 + more) one 0 - (sinCosNear angle).2).natAbs ≤ 1 := by
  intro square
  have hzero : 0 ≤ square := Int.ediv_nonneg (mul_self_nonneg angle) cast_one_pos.le
  have hone : square ≤ one := by
    refine Int.ediv_le_of_le_mul cast_one_pos ?_
    rw [← Int.natAbs_mul_self]
    exact Int.ofNat_le.2 (Nat.mul_le_mul h h)
  have hodd : one < termDivisors 1 200 := by decide +kernel
  have heven : one < termDivisors 0 200 := by decide +kernel
  exact ⟨alternatingTerms_add_sub_le hzero hone (by omega) (by omega) more,
    alternatingTerms_add_sub_le hzero hone (by omega) (by omega) more⟩

/-- What is left of an angle when the nearest multiple of half of π is taken away. -/
theorem natAbs_reduced_le (angle : Int) :
    (angle - (2 * angle + halfPi) / (2 * halfPi) * halfPi).natAbs ≤ one := by
  have hpos : 0 < halfPi := by decide +kernel
  have hle : halfPi ≤ 2 * one := by decide +kernel
  generalize halfPi = p at hpos hle ⊢
  have hdiv := Int.mul_ediv_add_emod (2 * angle + p) (2 * p)
  have hnonneg := Int.emod_nonneg (2 * angle + p) (by omega : 2 * p ≠ 0)
  have hlt := Int.emod_lt_of_pos (2 * angle + p) (by omega : 0 < 2 * p)
  generalize (2 * angle + p) / (2 * p) = turns at hdiv ⊢
  have hturns : 2 * p * turns = 2 * (turns * p) := by ring
  rw [hturns] at hdiv
  omega

end

end Fixed

end Reckoner
