import Reckoner.Number.Shortest

/-! How doubles are written. The notation of a double keeps every double apart: the shortest decimal,
positional while its first digit stands between the places `-4` and `15`, with a digit after the point
always, and scientific beyond. The display text is for readers: a whole number below `10 ^ 21` loses
its point, and zero its sign. -/

namespace Reckoner

namespace Decimal

def digitText (n : Nat) : List Char :=
  Nat.toDigits 10 n

/-- An exponent with its sign and at least two digits. -/
def exponentText (e : Int) : List Char :=
  let digits := digitText e.natAbs
  (if e < 0 then '-' else '+') :: (if digits.length < 2 then '0' :: digits else digits)

/-- Digits with a point after the first one; a single digit has no point. -/
def scientificText (digits : List Char) (place : Int) : List Char :=
  match digits with
  | [] => []
  | first :: [] => first :: 'e' :: exponentText place
  | first :: rest => first :: '.' :: rest ++ 'e' :: exponentText place

/-- Digits around a point, the first one at a place that is not negative. -/
def positionalText (digits : List Char) (place : Nat) : List Char :=
  let padded := digits ++ List.replicate (place + 1 - digits.length) '0'
  let fraction := padded.drop (place + 1)
  padded.take (place + 1) ++ '.' :: (if fraction.isEmpty then ['0'] else fraction)

/-- The text of a positive decimal with no final zero. -/
def text (d : Decimal) : List Char :=
  let digits := digitText d.digits
  let place := d.exponent + digits.length - 1
  match place with
  | .ofNat p => if p < 16 then positionalText digits p else scientificText digits place
  | .negSucc p =>
    if p < 4 then '0' :: '.' :: List.replicate p '0' ++ digits else scientificText digits place

end Decimal

namespace Binary64

/-- A text with a minus sign before it when it is negative. -/
def signed (negative : Bool) (text : List Char) : List Char :=
  if negative then '-' :: text else text

/-- The notation of a double, from which it can be read back. -/
def notationText : Binary64 → String
  | nan => "nan"
  | infinity s => if s then "-inf" else "inf"
  | finite s u _ =>
    String.ofList (signed s (if u = 0 then ['0', '.', '0'] else (Decimal.shortest u).text))

def display : Binary64 → String
  | nan => "NaN"
  | infinity s => if s then "-Infinity" else "Infinity"
  | finite s u _ =>
    if u = 0 then "0"
    else if isWhole u && wholePart u < Nat.pow 10 21 then
      String.ofList (signed s (Decimal.digitText (wholePart u)))
    else String.ofList (signed s (Decimal.shortest u).text)

end Binary64

end Reckoner
