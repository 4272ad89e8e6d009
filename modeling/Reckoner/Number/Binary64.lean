/-! Double-precision numbers, in the form the arithmetic laws need. Every finite double is a whole
number of units of `2 ^ -1074`, so a magnitude is a natural number, comparison is comparison of
natural numbers and the sum of two doubles is exact before it is rounded. Each operation is its exact
value rounded once, to the nearest double and a tie to the even one; rounding never has to move an
exponent, because the number of units carries it. -/

namespace Reckoner

namespace Binary64

/-- The number of units in one. -/
def unitsPerOne : Nat := Nat.pow 2 1074

/-- The least number of units that is too large for a double. -/
def overflowUnits : Nat := Nat.pow 2 2098

/-- A magnitude that a double holds: at most 53 significant bits, and below `2 ^ 1024`. -/
def Representable (units : Nat) : Prop :=
  units < overflowUnits ∧ Nat.pow 2 (units.log2 - 52) ∣ units

instance (units : Nat) : Decidable (Representable units) :=
  inferInstanceAs (Decidable (_ ∧ _))

end Binary64

/-- A double: not a number, an infinity, or a sign and a number of units. Zero has both signs, and no
other number has two forms. -/
inductive Binary64 where
  | nan
  | infinity (negative : Bool)
  | finite (negative : Bool) (units : Nat) (representable : Binary64.Representable units)
  deriving DecidableEq

namespace Binary64

/-- The whole number nearest to `n / d`; of two equally near, the even one. -/
def roundDiv (n d : Nat) : Nat :=
  let quotient := n / d
  let twice := 2 * (n % d)
  if twice < d then quotient
  else if d < twice then quotient + 1
  else quotient + quotient % 2

/-- The nearest number of units to `n / d` units that has at most 53 significant bits: the last bit
kept is 52 places below the first. -/
def nearestUnits (n d : Nat) : Nat :=
  let spacing := Nat.pow 2 ((n / d).log2 - 52)
  roundDiv n (d * spacing) * spacing

/-- The double of a sign and a rounded number of units, an infinity when it is too large. -/
def ofUnits (negative : Bool) (units : Nat) : Binary64 :=
  if h : Representable units then .finite negative units h else .infinity negative

def ofUnitRatio (negative : Bool) (n d : Nat) : Binary64 :=
  ofUnits negative (nearestUnits n d)

def ofRatio (negative : Bool) (n d : Nat) : Binary64 :=
  ofUnitRatio negative (n * unitsPerOne) d

def ofNat (n : Nat) : Binary64 :=
  ofRatio false n 1

instance (n : Nat) : OfNat Binary64 n := ⟨ofNat n⟩

/-- Whether the sign is minus; not-a-number has no sign. -/
def signBit : Binary64 → Bool
  | nan => false
  | infinity s => s
  | finite s _ _ => s

def isNaN : Binary64 → Bool
  | nan => true
  | _ => false

def isInfinite : Binary64 → Bool
  | infinity _ => true
  | _ => false

def isZero : Binary64 → Bool
  | finite _ 0 _ => true
  | _ => false

/-- Whether the double is less than zero, which minus zero is not. -/
def isBelowZero : Binary64 → Bool
  | nan => false
  | infinity s => s
  | finite s u _ => s && u != 0

def signedUnits (negative : Bool) (units : Nat) : Int :=
  if negative then -units else units

instance : Neg Binary64 where
  neg
    | nan => nan
    | infinity s => infinity !s
    | finite s u h => finite (!s) u h

/-- The rounded sum. A sum that is zero is plus zero, unless both terms are minus zero. -/
def add : Binary64 → Binary64 → Binary64
  | nan, _ => nan
  | _, nan => nan
  | infinity s, infinity t => if s = t then infinity s else nan
  | infinity s, finite .. => infinity s
  | finite .., infinity t => infinity t
  | finite s u _, finite t v _ =>
    let sum := signedUnits s u + signedUnits t v
    if sum = 0 then ofUnits (s && t) 0 else ofUnitRatio (sum < 0) sum.natAbs 1

instance : Add Binary64 := ⟨add⟩

instance : Sub Binary64 := ⟨fun x y => x + -y⟩

/-- The rounded product; zero times infinity is not a number. -/
def mul : Binary64 → Binary64 → Binary64
  | nan, _ => nan
  | _, nan => nan
  | infinity s, infinity t => infinity (s != t)
  | infinity s, finite t v _ => if v = 0 then nan else infinity (s != t)
  | finite s u _, infinity t => if u = 0 then nan else infinity (s != t)
  | finite s u _, finite t v _ => ofUnitRatio (s != t) (u * v) unitsPerOne

instance : Mul Binary64 := ⟨mul⟩

/-- The rounded quotient. A number over a zero is an infinity whose sign counts the zero's sign; zero
over zero and infinity over infinity are not numbers. -/
def div : Binary64 → Binary64 → Binary64
  | nan, _ => nan
  | _, nan => nan
  | infinity _, infinity _ => nan
  | infinity s, finite t _ _ => infinity (s != t)
  | finite s _ _, infinity t => ofUnits (s != t) 0
  | finite s u _, finite t v _ =>
    if v = 0 then (if u = 0 then nan else infinity (s != t))
    else ofRatio (s != t) u v

instance : Div Binary64 := ⟨div⟩

/-- The rounded square root. In units the root of `u` is that of `u * 2 ^ 1074`, a number of more
than 500 bits, so an inexact root rounds like its whole part and a half. -/
def sqrt : Binary64 → Binary64
  | nan => nan
  | infinity s => if s then nan else infinity false
  | finite s u h =>
    if u = 0 then finite s u h
    else if s then nan
    else
      let square := u * unitsPerOne
      let root := square.sqrt
      ofUnitRatio false (2 * root + (if root * root = square then 0 else 1)) 2

/-- Whether a number of units is a whole number of ones. -/
def isWhole (units : Nat) : Bool :=
  units % unitsPerOne == 0

def wholePart (units : Nat) : Nat :=
  units / unitsPerOne

end Binary64

end Reckoner
