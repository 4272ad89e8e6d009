import Reckoner.Proofs.RoundingOrder

/-! Products that are rounded at every factor. A product of numbers from one on never falls, an infinity
absorbs every further factor, and what a rounding takes away is one part in `2 ^ 52` at most; so the exact
product of the factors tells how far a rounded one gets (`Reaches.productFrom`). -/

namespace Reckoner

namespace Binary64

variable {x y z : Binary64}

theorem infinity_le_infinity : infinity false ≤ infinity false :=
  trivial

theorem finite_le_infinity {s : Bool} {u : Nat} {hu : Representable u} : finite s u hu ≤ infinity false :=
  trivial

theorem le_trans (hxy : x ≤ y) (hyz : y ≤ z) : x ≤ z := by
  rcases x with _ | ⟨_ | _⟩ | ⟨s, u, hu⟩ <;> rcases y with _ | ⟨_ | _⟩ | ⟨t, v, hv⟩ <;>
    rcases z with _ | ⟨_ | _⟩ | ⟨r, w, hw⟩ <;>
    first
    | exact trivial
    | exact hxy.elim
    | exact hyz.elim
    | exact Int.le_trans hxy hyz

theorem eq_infinity_of_le (h : infinity false ≤ y) : y = infinity false := by
  rcases y with _ | ⟨_ | _⟩ | ⟨t, v, hv⟩
  · exact h.elim
  · rfl
  · exact h.elim
  · exact h.elim

/-- What is no less than a finite double is plus infinity, or finite and of no fewer units. -/
theorem cases_of_finite_le {s : Bool} {u : Nat} {hu : Representable u} (h : finite s u hu ≤ y) :
    y = infinity false ∨
      ∃ t v hv, y = finite t v hv ∧ signedUnits s u ≤ signedUnits t v := by
  rcases y with _ | ⟨_ | _⟩ | ⟨t, v, hv⟩
  · exact h.elim
  · exact .inl rfl
  · exact h.elim
  · exact .inr ⟨t, v, hv, rfl, finite_le_finite.1 h⟩

theorem signedUnits_of_nonneg {s : Bool} {u : Nat} (h : 0 ≤ signedUnits s u) :
    (s && u != 0) = false ∧ signedUnits s u = u := by
  cases s with
  | false => exact ⟨rfl, rfl⟩
  | true =>
      simp only [signedUnits, if_true] at h ⊢
      obtain rfl : u = 0 := by omega
      exact ⟨rfl, rfl⟩

-- a comparison is not unfolded from here on, and the doubles in it not computed
attribute [local irreducible] le

/-- The numbers without a minus sign, minus zero among them. -/
theorem cases_of_nonneg (h : 0 ≤ x) :
    x = infinity false ∨ ∃ s u hu, x = finite s u hu ∧ 0 ≤ signedUnits s u := by
  obtain ⟨hzero, heq⟩ := zero_eq
  rw [heq] at h
  exact cases_of_finite_le h

theorem ofUnits_cases (negative : Bool) (u : Nat) :
    ofUnits negative u = infinity negative ∨
      ∃ h : Representable u, ofUnits negative u = finite negative u h := by
  by_cases h : Representable u
  · exact .inr ⟨h, dif_pos h⟩
  · exact .inl (dif_neg h)

theorem le_ofUnits {u v : Nat} (hu : Representable u) (h : u ≤ v) : finite false u hu ≤ ofUnits false v := by
  rcases ofUnits_cases false v with heq | ⟨hv, heq⟩
  · rw [heq]
    exact finite_le_infinity
  · rw [heq]
    exact finite_le_finite.2 (Int.ofNat_le.2 h)

/-- Plus infinity, and the doubles without a minus sign whose number of units is as asked. -/
inductive Above (p : Nat → Prop) : Binary64 → Prop
  | infinity : Above p (.infinity false)
  | finite {u : Nat} (h : Representable u) : p u → Above p (.finite false u h)

theorem above_ofUnits {p : Nat → Prop} {u : Nat} (h : p u) : Above p (ofUnits false u) := by
  rcases ofUnits_cases false u with heq | ⟨hrep, heq⟩
  · rw [heq]
    exact .infinity
  · rw [heq]
    exact .finite hrep h

theorem representable_unitsPerOne : Representable unitsPerOne := by
  obtain ⟨place, -, hone, hoverflow⟩ := Decimal.exists_place
  refine ⟨?_, ?_⟩
  · rw [hone, hoverflow]
    exact Nat.pow_lt_pow_right (by decide) (Nat.lt_add_of_pos_left (by decide))
  · rw [hone, Nat.log2_two_pow]
    exact Nat.pow_dvd_pow 2 (Nat.sub_le place 52)

theorem ofNat_eq (n : Nat) : ofNat n = ofUnits false (nearestUnits (n * unitsPerOne) 1) :=
  rfl

theorem one_eq : (1 : Binary64) = finite false unitsPerOne representable_unitsPerOne := by
  have hunits : nearestUnits (1 * unitsPerOne) 1 = unitsPerOne := by
    rw [Nat.mul_comm]
    exact nearestUnits_of_representable representable_unitsPerOne Nat.one_pos
  calc (1 : Binary64) = ofUnits false (nearestUnits (1 * unitsPerOne) 1) := ofNat_eq 1
    _ = finite false unitsPerOne representable_unitsPerOne := by
      rw [hunits, ofUnits_of_representable false representable_unitsPerOne]

/-- The numbers from one on: plus infinity, and the finite ones of as many units. -/
def FromOne (x : Binary64) : Prop :=
  Above (unitsPerOne ≤ ·) x

theorem FromOne.le_infinity (hx : FromOne x) : x ≤ .infinity false := by
  cases hx with
  | infinity => exact infinity_le_infinity
  | finite h hle => exact finite_le_infinity

theorem FromOne.le_refl (hx : FromOne x) : x ≤ x := by
  cases hx with
  | infinity => exact infinity_le_infinity
  | finite h hle => exact finite_le_finite.2 (Int.le_refl _)

theorem FromOne.eq_infinity (hx : FromOne x) (h : x.isInfinite = true) : x = .infinity false := by
  cases hx with
  | infinity => rfl
  | finite hrep hle => cases h

theorem FromOne.of_le (hx : FromOne x) (h : x ≤ y) : FromOne y := by
  cases hx with
  | infinity =>
      rw [eq_infinity_of_le h]
      exact .infinity
  | @finite u hu hle =>
      rcases cases_of_finite_le h with rfl | ⟨t, v, hv, rfl, hunits⟩
      · exact .infinity
      · have hpos : 0 < signedUnits false u :=
          Int.ofNat_lt.2 (Nat.lt_of_lt_of_le Decimal.unitsPerOne_pos hle)
        cases t with
        | false => exact .finite hv (Nat.le_trans hle (Int.ofNat_le.1 hunits))
        | true =>
            have hnonpos : signedUnits true v ≤ 0 := Int.neg_nonpos_of_nonneg (Int.natCast_nonneg v)
            exact absurd (Int.le_trans hunits hnonpos) (Int.not_le.2 hpos)

theorem fromOne_one : FromOne 1 := by
  rw [one_eq]
  exact .finite representable_unitsPerOne (Nat.le_refl unitsPerOne)

theorem fromOne_ofNat {n : Nat} (hn : 0 < n) : FromOne (ofNat n) := by
  have hunits : nearestUnits (unitsPerOne * 1) 1 ≤ nearestUnits (n * unitsPerOne) 1 := by
    refine nearestUnits_mono Nat.one_pos ?_
    rw [Nat.mul_one]
    exact Nat.le_mul_of_pos_left unitsPerOne hn
  rw [nearestUnits_of_representable representable_unitsPerOne Nat.one_pos] at hunits
  rw [ofNat_eq]
  exact above_ofUnits hunits

/-- An infinity absorbs every number from one on. -/
theorem infinity_mul (hx : FromOne x) : infinity false * x = infinity false := by
  cases hx with
  | infinity => rfl
  | finite h hle => exact if_neg (Nat.ne_of_gt (Nat.lt_of_lt_of_le Decimal.unitsPerOne_pos hle))

theorem mul_infinity (hx : FromOne x) : x * infinity false = infinity false := by
  cases hx with
  | infinity => rfl
  | finite h hle => exact if_neg (Nat.ne_of_gt (Nat.lt_of_lt_of_le Decimal.unitsPerOne_pos hle))

theorem le_nearestUnits_mul {u v : Nat} (hu : Representable u) (hv : unitsPerOne ≤ v) :
    u ≤ nearestUnits (u * v) unitsPerOne := by
  calc u = nearestUnits (u * unitsPerOne) unitsPerOne :=
        (nearestUnits_of_representable hu Decimal.unitsPerOne_pos).symm
    _ ≤ nearestUnits (u * v) unitsPerOne :=
        nearestUnits_mono Decimal.unitsPerOne_pos (Nat.mul_le_mul_left u hv)

/-- A rounded product is no less than its first number when the other one is one or more. -/
theorem le_mul_of_fromOne (hx : FromOne x) (hy : FromOne y) : x ≤ x * y := by
  cases hy with
  | infinity =>
      rw [mul_infinity hx]
      exact hx.le_infinity
  | @finite v hv hle =>
      cases hx with
      | infinity =>
          rw [infinity_mul (.finite hv hle)]
          exact infinity_le_infinity
      | @finite u hu _ =>
          rw [finite_mul_finite, bne_self_eq_false, ofUnitRatio]
          exact le_ofUnits hu (le_nearestUnits_mul hu hle)

theorem FromOne.mul (hx : FromOne x) (hy : FromOne y) : FromOne (x * y) :=
  hx.of_le (le_mul_of_fromOne hx hy)

/-- The product of a number and whole numbers, rounded at every factor. -/
def productFrom (product : Binary64) (factors : List Nat) : Binary64 :=
  factors.foldl (fun product factor => product * ofNat factor) product

variable {product : Binary64} {factors : List Nat}

theorem productFrom_append (product : Binary64) (factors others : List Nat) :
    productFrom product (factors ++ others) = productFrom (productFrom product factors) others :=
  List.foldl_append

/-- Further factors do not make a product less. -/
theorem le_productFrom (hproduct : FromOne product) (hfactors : ∀ factor ∈ factors, 0 < factor) :
    product ≤ productFrom product factors := by
  induction factors generalizing product with
  | nil => exact hproduct.le_refl
  | cons factor factors ih =>
      obtain ⟨hfactor, hfactors⟩ := List.forall_mem_cons.1 hfactors
      have hone := fromOne_ofNat hfactor
      exact le_trans (le_mul_of_fromOne hproduct hone) (ih (hproduct.mul hone) hfactors)

theorem productFrom_infinity (hfactors : ∀ factor ∈ factors, 0 < factor) :
    productFrom (infinity false) factors = infinity false := by
  induction factors with
  | nil => rfl
  | cons factor factors ih =>
      obtain ⟨hfactor, hfactors⟩ := List.forall_mem_cons.1 hfactors
      rw [productFrom, List.foldl_cons, infinity_mul (fromOne_ofNat hfactor)]
      exact ih hfactors

/-- The number of parts of which a rounding takes away one at most. A factor is rounded twice, by itself and
in its product. -/
def parts : Nat := 2 ^ 52

theorem le_nearestUnits_of_parts {n d : Nat} (hd : 0 < d) (h : parts * d ≤ n) :
    n * (parts - 1) ≤ nearestUnits n d * d * parts := by
  have hquotient : 2 ^ 52 ≤ n / d := (Nat.le_div_iff_mul_le hd).2 h
  have hne : n / d ≠ 0 := Nat.ne_of_gt (Nat.lt_of_lt_of_le (Nat.two_pow_pos 52) hquotient)
  have hlead : parts * 2 ^ ((n / d).log2 - 52) ≤ n / d := by
    rw [parts, ← Nat.pow_add, Nat.add_sub_cancel' ((Nat.le_log2 hne).2 hquotient)]
    exact Nat.log2_self_le hne
  have hspacing : 0 < 2 ^ ((n / d).log2 - 52) := Nat.two_pow_pos _
  simp only [nearestUnits, Nat.pow_eq]
  generalize 2 ^ ((n / d).log2 - 52) = spacing at hlead hspacing ⊢
  have hrest : n ≤ roundDiv n (d * spacing) * spacing * d + d * spacing := by
    calc n ≤ n / (d * spacing) * (d * spacing) + d * spacing :=
          Nat.le_of_lt (Nat.lt_div_mul_add (Nat.mul_pos hd hspacing))
      _ ≤ roundDiv n (d * spacing) * (d * spacing) + d * spacing :=
          Nat.add_le_add_right (Nat.mul_le_mul_right _ (div_le_roundDiv _ _)) _
      _ = roundDiv n (d * spacing) * spacing * d + d * spacing := by ring
  have hpart : d * spacing * parts ≤ n := by
    calc d * spacing * parts = parts * spacing * d := by ring
      _ ≤ n / d * d := Nat.mul_le_mul_right d hlead
      _ ≤ n := Nat.div_mul_le_self n d
  rw [Nat.mul_sub_one]
  apply Nat.sub_le_of_le_add
  calc n * parts ≤ (roundDiv n (d * spacing) * spacing * d + d * spacing) * parts :=
        Nat.mul_le_mul_right parts hrest
    _ = roundDiv n (d * spacing) * spacing * d * parts + d * spacing * parts := Nat.add_mul _ _ _
    _ ≤ roundDiv n (d * spacing) * spacing * d * parts + n := Nat.add_le_add_left hpart _

theorem parts_le_unitsPerOne : parts ≤ unitsPerOne := by
  obtain ⟨place, hplace, hone, -⟩ := Decimal.exists_place
  rw [hone, parts]
  exact Nat.pow_le_pow_right (by decide) (by omega)

/-- The positive doubles of `n / d` units or more, an infinity among them. -/
def Reaches (n d : Nat) (x : Binary64) : Prop :=
  Above (n ≤ · * d) x

variable {n d : Nat}

/-- What a factor and its two roundings leave of a product. -/
theorem Reaches.mul_ofNat (hx : Reaches n d x) (hone : FromOne x) {factor : Nat} (hfactor : 0 < factor) :
    Reaches (n * (factor * (parts - 1) ^ 2)) (d * parts ^ 2) (x * ofNat factor) := by
  have hlarge : parts * 1 ≤ factor * unitsPerOne := by
    rw [Nat.mul_one]
    exact Nat.le_trans parts_le_unitsPerOne (Nat.le_mul_of_pos_left unitsPerOne hfactor)
  have hloss := le_nearestUnits_of_parts Nat.one_pos hlarge
  have hfrom := fromOne_ofNat hfactor
  rw [ofNat_eq] at hfrom ⊢
  generalize nearestUnits (factor * unitsPerOne) 1 = v at hloss hfrom ⊢
  rcases ofUnits_cases false v with heq | ⟨hv, heq⟩
  · rw [heq, mul_infinity hone]
    exact .infinity
  rw [heq] at hfrom ⊢
  cases hx with
  | infinity =>
      rw [infinity_mul hfrom]
      exact .infinity
  | @finite u hu hle =>
      cases hone with
      | finite _ hune =>
      cases hfrom with
      | finite _ hvne =>
      have hproduct : parts * unitsPerOne ≤ u * v := by
        rw [Nat.mul_comm u v]
        exact Nat.mul_le_mul (Nat.le_trans parts_le_unitsPerOne hvne) hune
      have hloss' := le_nearestUnits_of_parts Decimal.unitsPerOne_pos hproduct
      rw [finite_mul_finite, bne_self_eq_false, ofUnitRatio]
      apply above_ofUnits
      have hpos := Decimal.unitsPerOne_pos
      generalize nearestUnits (u * v) unitsPerOne = w at hloss' ⊢
      generalize unitsPerOne = one at hloss hloss' hpos
      generalize parts - 1 = left at hloss hloss' ⊢
      apply Nat.le_of_mul_le_mul_right _ hpos
      calc n * (factor * left ^ 2) * one ≤ u * d * (factor * left ^ 2) * one := by gcongr
        _ = d * u * left * (factor * one * left) := by ring
        _ ≤ d * u * left * (v * 1 * parts) := by gcongr
        _ = d * parts * (u * v * left) := by ring
        _ ≤ d * parts * (w * one * parts) := by gcongr
        _ = w * (d * parts ^ 2) * one := by ring

theorem Reaches.productFrom (hproduct : Reaches n d product) (hone : FromOne product)
    (hfactors : ∀ factor ∈ factors, 0 < factor) :
    Reaches (n * (factors.prod * ((parts - 1) ^ 2) ^ factors.length)) (d * (parts ^ 2) ^ factors.length)
      (productFrom product factors) := by
  induction factors generalizing n d product with
  | nil =>
      rw [List.prod_nil, List.length_nil, pow_zero, pow_zero, Nat.mul_one, Nat.mul_one, Nat.mul_one]
      exact hproduct
  | cons factor factors ih =>
      obtain ⟨hfactor, hfactors⟩ := List.forall_mem_cons.1 hfactors
      have hrest := ih (hproduct.mul_ofNat hone hfactor) (hone.mul (fromOne_ofNat hfactor)) hfactors
      rw [List.prod_cons, List.length_cons, pow_succ', pow_succ']
      convert hrest using 1
      · ring
      · ring
      · rfl

theorem overflowUnits_eq : overflowUnits = unitsPerOne * 2 ^ 1024 := by
  obtain ⟨place, -, hone, hoverflow⟩ := Decimal.exists_place
  rw [hoverflow, hone, ← Nat.pow_add, Nat.add_comm]

/-- What would be `2 ^ 1024` or more is an infinity. -/
theorem Reaches.isInfinite (hx : Reaches (unitsPerOne * n) d x) (hd : 0 < d) (h : 2 ^ 1024 * d ≤ n) :
    x.isInfinite = true := by
  cases hx with
  | infinity => rfl
  | @finite u hu hle =>
      have hlimit : u * d < unitsPerOne * n := by
        calc u * d < overflowUnits * d := Nat.mul_lt_mul_of_pos_right hu.1 hd
          _ = unitsPerOne * (2 ^ 1024 * d) := by rw [overflowUnits_eq, Nat.mul_assoc]
          _ ≤ unitsPerOne * n := Nat.mul_le_mul_left unitsPerOne h
      exact absurd hle (Nat.not_le.2 hlimit)

end Binary64

end Reckoner
