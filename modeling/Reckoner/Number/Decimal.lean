import Reckoner.Number.Binary64

/-! Decimal numbers, `digits * 10 ^ exponent`, and the double nearest to each. -/

namespace Reckoner

/-- A magnitude in decimal: a whole number of digits, scaled by a power of ten. -/
structure Decimal where
  digits : Nat
  exponent : Int
  deriving DecidableEq, Repr

namespace Decimal

/-- The number of decimal digits of a natural number, one for zero. -/
def digitCount (n : Nat) : Nat :=
  if n < 10 then 1 else digitCount (n / 10) + 1

/-- Moves the final zeros of the digits into the exponent. -/
def trim (d : Decimal) : Decimal :=
  if h : d.digits ≠ 0 ∧ d.digits % 10 = 0 then trim ⟨d.digits / 10, d.exponent + 1⟩ else d
termination_by d.digits
decreasing_by exact Nat.div_lt_self (Nat.pos_of_ne_zero h.1) (by decide)

/-- The exact number of units of a decimal, as a numerator and a denominator. -/
def unitFraction (d : Decimal) : Nat × Nat :=
  match d.exponent with
  | .ofNat e => (d.digits * Nat.pow 10 e * Binary64.unitsPerOne, 1)
  | .negSucc e => (d.digits * Binary64.unitsPerOne, Nat.pow 10 (e + 1))

def nearestUnits (d : Decimal) : Nat :=
  Binary64.nearestUnits d.unitFraction.1 d.unitFraction.2

/-- The double nearest to a decimal with a sign. A positive decimal from `10 ^ 310` on is an infinity,
and one that its bit length and its power of ten keep below half a unit is zero, whatever the size of
the exponent; only the others are rounded. -/
def toBinary64 (d : Decimal) (negative : Bool) : Binary64 :=
  if d.digits = 0 then Binary64.ofUnits negative 0
  else if 310 ≤ d.exponent then .infinity negative
  else if d.digits.log2 + 3 * d.exponent < -1100 then Binary64.ofUnits negative 0
  else Binary64.ofUnits negative d.nearestUnits

end Decimal

end Reckoner
