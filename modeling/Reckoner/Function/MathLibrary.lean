import Reckoner.Number.Elementary

/-! The library of elementary functions that the keypad calls. It is no part of the calculator: its
functions are a parameter, each of which has a value at an operand or refuses it. -/

namespace Reckoner

/-- Why a function of the library has no value at an operand. -/
inductive DomainError where
  | domainError
  deriving DecidableEq, Repr

class MathLibrary where
  sin : Binary64 → Except DomainError Binary64
  cos : Binary64 → Except DomainError Binary64
  tan : Binary64 → Except DomainError Binary64
  log : Binary64 → Except DomainError Binary64
  log10 : Binary64 → Except DomainError Binary64
  sqrt : Binary64 → Except DomainError Binary64

namespace MathLibrary

/-- A function that refuses some operands. -/
def refusing (outside : Binary64 → Bool) (f : Binary64 → Binary64) (x : Binary64) :
    Except DomainError Binary64 :=
  if outside x then .error .domainError else .ok (f x)

/-- A library whose values are rounded from series. It refuses the infinities for the functions of an
angle, all numbers up to zero for the logarithms, and those below zero for the root. -/
abbrev ofSeries : MathLibrary where
  sin := refusing Binary64.isInfinite Binary64.sin
  cos := refusing Binary64.isInfinite Binary64.cos
  tan := refusing Binary64.isInfinite Binary64.tan
  log := refusing (fun x => x.isZero || x.isBelowZero) Binary64.ln
  log10 := refusing (fun x => x.isZero || x.isBelowZero) Binary64.log10
  sqrt := refusing Binary64.isBelowZero Binary64.sqrt

end MathLibrary

end Reckoner
