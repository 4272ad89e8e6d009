import Reckoner.Number.Factorial
import Reckoner.Proofs.RoundedProducts

/-! The running products of a factorial. To stop at an infinity changes nothing, since no further factor
changes an infinity, and a factorial grows with its number, since no rounded product falls. The product of
the whole numbers from two to `171` is too large for a double even if every rounding goes down, and this
bounds the multiplications, whatever the number is (`factorial_products`). -/

namespace Reckoner

namespace Binary64

variable {x y product : Binary64}

-- a comparison with zero is not unfolded, and the units of the zero not computed
attribute [local irreducible] le

/-- The product of one and all the whole numbers from two up to `n`, rounded at every factor. -/
def fullProduct (n : Nat) : Binary64 :=
  productFrom 1 (List.range' 2 (n - 1))

theorem pos_of_mem_range' {start count factor : Nat} (hstart : 0 < start)
    (h : factor ∈ List.range' start count) : 0 < factor :=
  Nat.lt_of_lt_of_le hstart (List.mem_range'_1.1 h).1

theorem fromOne_fullProduct (n : Nat) : FromOne (fullProduct n) :=
  fromOne_one.of_le (le_productFrom fromOne_one fun _ => pos_of_mem_range' (by decide))

theorem fullProduct_mono {m n : Nat} (h : m ≤ n) : fullProduct m ≤ fullProduct n := by
  have hsplit : List.range' 2 (n - 1) =
      List.range' 2 (m - 1) ++ List.range' (2 + (m - 1)) (n - 1 - (m - 1)) := by
    rw [List.range'_append_1]
    congr 1
    omega
  rw [fullProduct, fullProduct, hsplit, productFrom_append]
  exact le_productFrom (fromOne_fullProduct m) fun _ => pos_of_mem_range' (by omega)

/-- To stop at an infinity changes nothing: the last running product is the product of all factors. -/
theorem getLastD_runningProducts (hproduct : FromOne product) {count next : Nat} (hnext : 0 < next) :
    (runningProducts count next product).getLastD product =
      productFrom product (List.range' next count) := by
  induction count generalizing next product with
  | zero => rfl
  | succ count ih =>
      have hmul := hproduct.mul (fromOne_ofNat hnext)
      rw [runningProducts, List.getLastD_cons, List.range'_succ, productFrom, List.foldl_cons]
      split_ifs with hinfinite
      · rw [hmul.eq_infinity hinfinite]
        exact (productFrom_infinity fun _ => pos_of_mem_range' (Nat.succ_pos next)).symm
      · exact ih hmul (Nat.succ_pos next)

/-- If the product of some factors is infinite, no more than these are multiplied, however many follow. -/
theorem length_runningProducts_le {limit next : Nat}
    (h : (productFrom product (List.range' next (limit + 1))).isInfinite = true) (count : Nat) :
    (runningProducts count next product).length ≤ limit + 1 := by
  induction count generalizing limit next product with
  | zero => exact Nat.zero_le _
  | succ count ih =>
      rw [runningProducts, List.length_cons, Nat.succ_le_succ_iff]
      split_ifs with hinfinite
      · exact Nat.zero_le limit
      · rw [List.range'_succ, productFrom, List.foldl_cons] at h
        cases limit with
        | zero => exact absurd h hinfinite
        | succ limit => exact ih h

theorem isInfinite_productFrom : (productFrom 1 (List.range' 2 (169 + 1))).isInfinite = true := by
  have hone : Reaches unitsPerOne 1 1 := by
    rw [one_eq]
    exact .finite representable_unitsPerOne (Nat.le_of_eq (Nat.mul_one unitsPerOne).symm)
  have hfactors : ∀ factor ∈ List.range' 2 (169 + 1), 0 < factor := fun _ => pos_of_mem_range' (by decide)
  have hlarge : 2 ^ 1024 * (1 * (parts ^ 2) ^ (List.range' 2 (169 + 1)).length) ≤
      (List.range' 2 (169 + 1)).prod * ((parts - 1) ^ 2) ^ (List.range' 2 (169 + 1)).length := by
    decide +kernel
  have hpos : 0 < 1 * (parts ^ 2) ^ (List.range' 2 (169 + 1)).length :=
    Nat.mul_pos Nat.one_pos (Nat.pow_pos (Nat.pow_pos (Nat.two_pow_pos 52)))
  exact (hone.productFrom fromOne_one hfactors).isInfinite hpos hlarge

/-- The product up to `171` is too large for a double, and so is every longer one. -/
theorem fullProduct_eq_infinity {n : Nat} (h : 171 ≤ n) : fullProduct n = infinity false := by
  refine eq_infinity_of_le ?_
  rw [← (fromOne_fullProduct 171).eq_infinity isInfinite_productFrom]
  exact fullProduct_mono h

theorem length_factorialProducts_le (n : Nat) : (factorialProducts n).length ≤ 170 :=
  length_runningProducts_le isInfinite_productFrom (n - 1)

theorem length_factorialSteps_le (x : Binary64) : x.factorialSteps.length ≤ 170 := by
  cases x with
  | nan => exact Nat.zero_le _
  | infinity s => exact Nat.zero_le _
  | finite s u hu =>
      rw [factorialSteps]
      split_ifs
      · exact Nat.zero_le _
      · exact length_factorialProducts_le (wholePart u)

variable {s : Bool} {u : Nat} {hu : Representable u}

theorem factorial_eq_getLastD (h : 0 ≤ signedUnits s u) :
    (finite s u hu).factorial = (finite s u hu).factorialSteps.getLastD 1 := by
  have hguard : ¬((finite s u hu).isNaN || (finite s u hu).isBelowZero) = true :=
    Bool.eq_false_iff.1 (signedUnits_of_nonneg h).1
  have hfinite : ¬(finite s u hu).isInfinite = true := Bool.false_ne_true
  rw [factorial, if_neg hguard, if_neg hfinite]

theorem factorial_eq_fullProduct (h : 0 ≤ signedUnits s u) :
    (finite s u hu).factorial = fullProduct (wholePart u) := by
  have hsign : ¬(s && u != 0) = true := Bool.eq_false_iff.1 (signedUnits_of_nonneg h).1
  rw [factorial_eq_getLastD h, factorialSteps, if_neg hsign]
  exact getLastD_runningProducts fromOne_one (by decide)

theorem factorial_mono (hx : 0 ≤ x) (hxy : x ≤ y) : x.factorial ≤ y.factorial := by
  rcases cases_of_nonneg hx with rfl | ⟨s, u, hu, rfl, hunits⟩
  · rw [eq_infinity_of_le hxy]
    exact infinity_le_infinity
  rw [factorial_eq_fullProduct hunits]
  rcases cases_of_finite_le hxy with rfl | ⟨t, v, hv, rfl, hle⟩
  · exact (fromOne_fullProduct _).le_infinity
  have hunits' : 0 ≤ signedUnits t v := Int.le_trans hunits hle
  rw [factorial_eq_fullProduct hunits']
  apply fullProduct_mono
  apply Nat.div_le_div_right
  rw [(signedUnits_of_nonneg hunits).2, (signedUnits_of_nonneg hunits').2] at hle
  exact Int.ofNat_le.1 hle

/-- A factorial takes at most 170 multiplications, of whatever number. It ends with the product that it
would have without an end at an infinity, which is that of all whole numbers up to its own; and of numbers
from zero on, an infinity among them, a greater one has no smaller factorial. -/
theorem factorial_products (x : Binary64) :
    x.factorialSteps.length ≤ 170 ∧
      (∀ s u hu, x = finite s u hu → 0 ≤ x →
        x.factorial = x.factorialSteps.getLastD 1 ∧ x.factorial = fullProduct (wholePart u)) ∧
      ∀ y, 0 ≤ x → x ≤ y → x.factorial ≤ y.factorial := by
  refine ⟨length_factorialSteps_le x, ?_, fun y => factorial_mono⟩
  rintro s u hu rfl hx
  have hunits : 0 ≤ signedUnits s u := by
    rcases cases_of_nonneg hx with heq | ⟨s', u', hu', heq, hunits⟩
    · cases heq
    · cases heq
      exact hunits
  exact ⟨factorial_eq_getLastD hunits, factorial_eq_fullProduct hunits⟩

/-- The factorial of three and a half is that of three, and no greater than that of two hundred, whose
products end at an infinity. -/
theorem factorial_products_of_fraction :
    let x : Binary64 := ofRatio false 7 2
    let y : Binary64 := 200
    0 ≤ x ∧ x ≤ y ∧ x.factorial = fullProduct 3 ∧ x.factorialSteps.length = 2 ∧
      y.factorial = y.factorialSteps.getLastD 1 ∧ y.factorialSteps.length ≤ 170 ∧
      y.factorial = infinity false ∧ x.factorial ≤ y.factorial := by
  intro x y
  have hx : ∃ hu, x = finite false (7 * Nat.pow 2 1073) hu :=
    ⟨by decide +kernel, by decide +kernel⟩
  have hy : ∃ hu, y = finite false (200 * unitsPerOne) hu := ⟨by decide +kernel, by decide +kernel⟩
  obtain ⟨hu, hx⟩ := hx
  obtain ⟨hv, hy⟩ := hy
  have hnonneg : 0 ≤ x ∧ 0 ≤ y ∧ x ≤ y := by
    obtain ⟨hzero, heq⟩ := zero_eq
    rw [heq, hx, hy]
    exact ⟨finite_le_finite.2 (by decide +kernel), finite_le_finite.2 (by decide +kernel),
      finite_le_finite.2 (by decide +kernel)⟩
  obtain ⟨-, hproduct, hmono⟩ := factorial_products x
  obtain ⟨hlength, hlast, -⟩ := factorial_products y
  have hpart : wholePart (7 * Nat.pow 2 1073) = 3 := by decide +kernel
  have hlarge : 171 ≤ wholePart (200 * unitsPerOne) := by decide +kernel
  obtain ⟨hlastProduct, hfull⟩ := hlast false _ hv hy hnonneg.2.1
  refine ⟨hnonneg.1, hnonneg.2.2, ?_, by decide +kernel, hlastProduct, hlength,
    hfull.trans (fullProduct_eq_infinity hlarge), hmono y hnonneg.1 hnonneg.2.2⟩
  rw [(hproduct false _ hu hx hnonneg.1).2, hpart]

end Binary64

end Reckoner
