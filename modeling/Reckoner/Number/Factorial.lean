import Reckoner.Number.Binary64

/-! The factorial of a double: the product, rounded at every factor, of the whole numbers up to it. The
running products are a list, one for each multiplication, so its length says how much work is done. -/

namespace Reckoner.Binary64

/-- The running products of a number and up to `count` further whole numbers from `next` on. They end
at an infinity, which no further factor changes. -/
def runningProducts : (count next : Nat) → Binary64 → List Binary64
  | 0, _, _ => []
  | count + 1, next, product =>
    let product := product * ofNat next
    product :: (if product.isInfinite then [] else runningProducts count (next + 1) product)

/-- The running products of one and the whole numbers from two up to `n`. -/
def factorialProducts (n : Nat) : List Binary64 :=
  runningProducts (n - 1) 2 1

/-- The products of a factorial in the order in which they are made; none are made of not-a-number, of an
infinity and of a number below zero. -/
def factorialSteps : Binary64 → List Binary64
  | finite s u _ => if s && u != 0 then [] else factorialProducts (wholePart u)
  | nan | infinity _ => []

/-- The factorial of the whole part; there is none below zero. -/
def factorial (x : Binary64) : Binary64 :=
  if x.isNaN || x.isBelowZero then nan
  else if x.isInfinite then infinity false
  else x.factorialSteps.getLastD 1

end Reckoner.Binary64
