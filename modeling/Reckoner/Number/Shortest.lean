import Reckoner.Number.Decimal

/-! The shortest decimal of a double: the fewest digits that read back as the same number of units
and, among those, the nearest to it. Beside a value lie two points of each grid of decimals of equal
spacing. Of ever finer grids, beginning with the spacing of the first digit of the value, the first one
with such a point that reads back is the one looked for. A unit is a whole number of `10 ^ -1074`, so
every value is itself a point of the grid of that spacing, and the search ends there at the latest. -/

namespace Reckoner.Decimal

/-- The exponent of ten of a number of units: the place of the first digit of its value. -/
def leadingExponent (units : Nat) : Int :=
  (digitCount (units * Nat.pow 10 324 / Binary64.unitsPerOne) : Int) - 325

/-- A number of units over the spacing `10 ^ place`, as a numerator and a denominator. -/
def gridFraction (units : Nat) (place : Int) : Nat × Nat :=
  match place with
  | .ofNat e => (units, Binary64.unitsPerOne * Nat.pow 10 e)
  | .negSucc e => (units * Nat.pow 10 (e + 1), Binary64.unitsPerOne)

/-- The points of the grid with spacing `10 ^ place` beside a number of units, the nearer one first;
of two equally near, the even one. -/
def neighbours (units : Nat) (place : Int) : List Decimal :=
  let (n, d) := gridFraction units place
  let below := n / d
  let near := Binary64.roundDiv n d
  [⟨near, place⟩, ⟨if near = below then below + 1 else below, place⟩]

/-- Looks for a point that reads back, on `count` grids with a tenth of the spacing each time. -/
def searchGrids (units : Nat) : (count : Nat) → (place : Int) → Option Decimal
  | 0, _ => none
  | count + 1, place =>
    match (neighbours units place).find? fun d => d.nearestUnits = units with
    | some d => some d
    | none => searchGrids units count (place - 1)

/-- The shortest decimal of a positive number of units, with no final zero. -/
def shortest (units : Nat) : Decimal :=
  let place := leadingExponent units
  ((searchGrids units (place + 1075).toNat place).getD ⟨0, 0⟩).trim

end Reckoner.Decimal
