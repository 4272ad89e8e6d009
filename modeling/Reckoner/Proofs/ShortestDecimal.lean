import Reckoner.Number.Shortest
import Reckoner.Proofs.Rounding

/-! The shortest decimal reads back. The search over ever finer grids only ends with a point that is nearest
to the number it was begun for, and it does end: on the last grid, whose spacing is that of `10 ^ -1074`,
every number of units is a point itself (`exists_neighbour`). Final zeros that are dropped afterwards
change no value. -/

namespace Reckoner.Decimal

open Binary64 (Representable)

/-- Final zeros moved into the exponent change no value. -/
theorem nearestUnits_trim (d : Decimal) : d.trim.nearestUnits = d.nearestUnits := by
  induction d using trim.induct with
  | case1 d h ih =>
      obtain ⟨n, e⟩ := d
      have hdigits : n / 10 * 10 ^ 1 = n := by
        rw [Nat.pow_one, Nat.div_mul_cancel (Nat.dvd_of_mod_eq_zero h.2)]
      have hscale := nearestUnits_scale (n / 10) 1 (e + 1)
      rw [hdigits, show e + 1 - (1 : Nat) = e by omega] at hscale
      rw [trim, dif_pos h, ih, hscale]
  | case2 d h => rw [trim, dif_neg h]

section

-- what the points of a grid are does not matter to the search, and is not computed
attribute [local irreducible] nearestUnits neighbours

theorem searchGrids_succ (units count : Nat) (place : Int) :
    searchGrids units (count + 1) place =
      match (neighbours units place).find? fun d => d.nearestUnits = units with
      | some d => some d
      | none => searchGrids units count (place - 1) :=
  rfl

/-- What a search finds reads back. -/
theorem nearestUnits_of_searchGrids {units count : Nat} {place : Int} {d : Decimal}
    (h : searchGrids units count place = some d) : d.nearestUnits = units := by
  induction count generalizing place with
  | zero => cases h
  | succ count ih =>
      rw [searchGrids_succ] at h
      cases hfind : (neighbours units place).find? fun d => d.nearestUnits = units with
      | none =>
          rw [hfind] at h
          exact ih h
      | some found =>
          rw [hfind] at h
          cases h
          have hreads := List.find?_some hfind
          exact of_decide_eq_true hreads

/-- A search does not pass by a grid with a point that reads back. -/
theorem exists_searchGrids {units k : Nat} {place : Int} {d : Decimal}
    (hd : d ∈ neighbours units (place - k)) (hunits : d.nearestUnits = units) (count : Nat)
    (hk : k < count) : ∃ found, searchGrids units count place = some found := by
  induction count generalizing k place with
  | zero => omega
  | succ count ih =>
      rw [searchGrids_succ]
      cases hfind : (neighbours units place).find? fun d => d.nearestUnits = units with
      | some found => exact ⟨found, rfl⟩
      | none =>
          cases k with
          | zero =>
              rw [Int.natCast_zero, Int.sub_zero] at hd
              exact absurd (decide_eq_true hunits) (List.find?_eq_none.1 hfind d hd)
          | succ k =>
              refine ih ?_ (Nat.lt_of_succ_lt_succ hk)
              rw [show place - 1 - (k : Int) = place - ((k + 1 : Nat) : Int) by omega]
              exact hd

end

/-- On the finest grid every number of units is a point. -/
theorem exists_neighbour {units : Nat} (h : Representable units) :
    ∃ d ∈ neighbours units (-1074), d.nearestUnits = units := by
  obtain ⟨place, hplace, hone, -⟩ := exists_place
  obtain ⟨e, rfl⟩ : ∃ e, place = e + 1 := ⟨1073, hplace⟩
  have hgrid : (-1074 : Int) = .negSucc e := by omega
  have hpoint : units * 10 ^ (e + 1) = units * 5 ^ (e + 1) * 2 ^ (e + 1) := by
    rw [Nat.mul_assoc, ← Nat.mul_pow]
  have hnear : Binary64.roundDiv (units * 10 ^ (e + 1)) (2 ^ (e + 1)) = units * 5 ^ (e + 1) := by
    rw [hpoint, Binary64.roundDiv_mul_self _ (Nat.two_pow_pos _)]
  refine ⟨⟨units * 5 ^ (e + 1), .negSucc e⟩, ?_, ?_⟩
  · simp only [hgrid, neighbours, gridFraction, Nat.pow_eq, hone, hnear]
    exact List.mem_cons_self
  · simp only [nearestUnits, unitFraction, Nat.pow_eq, hone]
    rw [← hpoint, Binary64.nearestUnits_of_representable h (Nat.pow_pos (by decide))]

theorem one_le_digitCount (n : Nat) : 1 ≤ digitCount n := by
  rw [digitCount]
  split
  · exact Nat.le_refl 1
  · exact Nat.le_add_left 1 _

/-- The shortest decimal of a double's units is nearest to them. -/
theorem nearestUnits_shortest {units : Nat} (h : Representable units) :
    (shortest units).nearestUnits = units := by
  obtain ⟨d, hd, hunits⟩ := exists_neighbour h
  have hlead : -324 ≤ leadingExponent units := by
    have hcount := one_le_digitCount (units * Nat.pow 10 324 / Binary64.unitsPerOne)
    rw [leadingExponent]
    omega
  have hlast : (-1074 : Int) = leadingExponent units - ((leadingExponent units + 1074).toNat : Int) := by
    omega
  rw [hlast] at hd
  obtain ⟨found, hfound⟩ :=
    exists_searchGrids hd hunits (leadingExponent units + 1075).toNat (by omega)
  rw [shortest, nearestUnits_trim, hfound]
  exact nearestUnits_of_searchGrids hfound

end Reckoner.Decimal
