import Reckoner.Number.Binary64

/-! Sine, cosine, tangent and logarithms of doubles, from series. Each is summed in fixed point, as a
whole number of `2 ^ -2400`, over a number of terms that is enough for all numbers, and rounded once at the
end. How near to the true values the sums are is not proved, and other libraries round other values. -/

namespace Reckoner

namespace Fixed

/-- The number of bits after the point. -/
def places : Nat := 2400

def one : Nat := Nat.pow 2 places

/-- `term / odd - (term / square) / (odd + 2) + …`, the series of the arctangent. -/
def arctanTerms (square : Nat) : Nat → Nat → Nat → Int
  | 0, _, _ => 0
  | fuel + 1, term, odd => (term / odd : Nat) - arctanTerms square fuel (term / square) (odd + 2)

/-- The arctangent of `1 / n`, for `n` from `5` on. -/
def arctanInverse (n : Nat) : Int :=
  arctanTerms (n * n) 600 (one / n) 1

/-- Half of π, by Machin's formula. -/
def halfPi : Int :=
  8 * arctanInverse 5 - 2 * arctanInverse 239

/-- `term / odd + term * square / (odd + 2) + …`, the series of the inverse hyperbolic tangent. -/
def artanhTerms (square : Nat) : Nat → Nat → Nat → Nat
  | 0, _, _ => 0
  | fuel + 1, term, odd => term / odd + artanhTerms square fuel (term * square / one) (odd + 2)

/-- The logarithm of a ratio between one and two, as twice the inverse hyperbolic tangent of
`(n - d) / (n + d)`. -/
def lnRatio (n d : Nat) : Nat :=
  let z := (n - d) * one / (n + d)
  2 * artanhTerms (z * z / one) 800 z 1

def lnTwo : Nat := lnRatio 2 1

def ln (units : Nat) : Int :=
  lnRatio units (Nat.pow 2 units.log2) + ((units.log2 : Int) - 1074) * lnTwo

def lnTen : Int := ln (10 * Binary64.unitsPerOne)

/-- `term - term * square / ((n + 1) (n + 2)) + …`, the series of sine and cosine. -/
def alternatingTerms (square : Int) : Nat → Int → Nat → Int
  | 0, _, _ => 0
  | fuel + 1, term, n =>
    term - alternatingTerms square fuel (term * square / one / ((n + 1) * (n + 2) : Nat)) (n + 2)

/-- The sine and the cosine of an angle between minus and plus a quarter of π. -/
def sinCosNear (angle : Int) : Int × Int :=
  let square := angle * angle / one
  (alternatingTerms square 200 angle 1, alternatingTerms square 200 one 0)

/-- The sine and the cosine of a number of units: the angle is brought near a multiple of half of π, and
each quarter turn exchanges the two. -/
def sinCos (units : Nat) : Int × Int :=
  let angle : Int := units * Nat.pow 2 (places - 1074)
  let turns := (2 * angle + halfPi) / (2 * halfPi)
  let (s, c) := sinCosNear (angle - turns * halfPi)
  match (turns % 4).toNat with
  | 0 => (s, c)
  | 1 => (c, -s)
  | 2 => (-s, -c)
  | _ => (-c, s)

end Fixed

namespace Binary64

/-- The double nearest to a quotient of two whole numbers, with a sign of its own. -/
def ofQuotient (negative : Bool) (n d : Int) : Binary64 :=
  ofRatio (negative != (decide (n < 0) != decide (d < 0))) n.natAbs d.natAbs

def sin : Binary64 → Binary64
  | finite s u h => if u = 0 then finite s u h else ofQuotient s (Fixed.sinCos u).1 Fixed.one
  | _ => nan

def cos : Binary64 → Binary64
  | finite _ u _ => ofQuotient false (Fixed.sinCos u).2 Fixed.one
  | _ => nan

def tan : Binary64 → Binary64
  | finite s u h =>
    if u = 0 then finite s u h
    else
      let (sine, cosine) := Fixed.sinCos u
      ofQuotient s sine cosine
  | _ => nan

/-- A logarithm with the natural logarithm of its base, for the numbers above zero. -/
def logBase (base : Int) : Binary64 → Binary64
  | infinity false => infinity false
  | finite false u _ => ofQuotient false (Fixed.ln u) base
  | _ => nan

def ln : Binary64 → Binary64 := logBase Fixed.one

def log10 : Binary64 → Binary64 := logBase Fixed.lnTen

end Binary64

end Reckoner
