import Reckoner.Expression.Evaluation
import Reckoner.Function.MathLibrary
import Reckoner.Number.Factorial

/-! The functions of one number that the keypad offers, each under a name and some under a sign as
well. Most of them are those of the mathematical library; an operand that the library refuses gives
not-a-number, so that a name is all that an application is refused for. -/

namespace Reckoner

inductive UnaryFunction where
  | sine
  | cosine
  | tangent
  | decimalLogarithm
  | naturalLogarithm
  | squareRoot
  | square
  | factorial
  | circleConstant
  | eulerConstant
  deriving DecidableEq, Repr

namespace UnaryFunction

def names : List (String × UnaryFunction) :=
  [ ("sin", sine), ("cos", cosine), ("tan", tangent), ("log", decimalLogarithm),
    ("ln", naturalLogarithm), ("√", squareRoot), ("sqrt", squareRoot), ("^", square),
    ("square", square), ("!", factorial), ("factorial", factorial), ("π", circleConstant),
    ("pi", circleConstant), ("e", eulerConstant) ]

def ofName? (name : String) : Option UnaryFunction :=
  (names.find? fun entry => entry.1 = name).map Prod.snd

def pi : Binary64 := Decimal.toBinary64 ⟨3141592653589793, -15⟩ false

def e : Binary64 := Decimal.toBinary64 ⟨2718281828459045, -15⟩ false

/-- A logarithm of the library. The library refuses both zeros, where the value is minus infinity. -/
def logarithm (log : Binary64 → Except DomainError Binary64) (x : Binary64) :
    Except DomainError Binary64 :=
  if x.isZero then .ok (.infinity true) else log x

/-- What is shown of a value: not-a-number where there is none. -/
def shown : Except DomainError Binary64 → Binary64
  | .ok value => value
  | .error .domainError => .nan

variable [MathLibrary]

/-- The value at a number, if the library does not refuse it; the constants have the same value
everywhere. -/
def eval : UnaryFunction → Binary64 → Except DomainError Binary64
  | sine, x => MathLibrary.sin x
  | cosine, x => MathLibrary.cos x
  | tangent, x => MathLibrary.tan x
  | decimalLogarithm, x => logarithm MathLibrary.log10 x
  | naturalLogarithm, x => logarithm MathLibrary.log x
  | squareRoot, x => MathLibrary.sqrt x
  | square, x => .ok (x * x)
  | factorial, x => .ok x.factorial
  | circleConstant, _ => .ok pi
  | eulerConstant, _ => .ok e

def value (f : UnaryFunction) (x : Binary64) : Binary64 :=
  shown (f.eval x)

/-- Applies the function of a name, in one step that shows the name as it was given. -/
def apply (name : String) (operand : Binary64) : Except CalculationError Evaluation :=
  match ofName? name with
  | none => .error (.unknownFunction name)
  | some f => .ok ⟨f.value operand, [.application name operand (f.value operand)]⟩

end UnaryFunction

end Reckoner
