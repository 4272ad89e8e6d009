import Reckoner.Expression.Token
import Reckoner.Text.Quoted

/-! Why a calculation is refused. -/

namespace Reckoner

/-- Why a calculation is refused. The first three refuse the input itself; the last two refuse the
order of its tokens. -/
inductive CalculationError where
  /-- A character that no expression holds, or no character at all. -/
  | badCharacter (expression : String)
  /-- Nothing but spaces and points. -/
  | noTokens (expression : String)
  | unknownFunction (name : String)
  /-- An operator with fewer than two numbers before it. -/
  | missingOperands (op : Operator)
  /-- A number of values other than one at the end. -/
  | leftOperands (count : Nat)
  deriving DecidableEq, Repr

namespace CalculationError

/-- Whether the input is invalid, or only malformed. -/
def isInvalid : CalculationError → Bool
  | badCharacter _ | noTokens _ | unknownFunction _ => true
  | missingOperands _ | leftOperands _ => false

/-- The class of an error, as log messages name it. -/
def kind (e : CalculationError) : String :=
  if e.isInvalid then "InvalidExpression" else "MalformedExpression"

def message : CalculationError → String
  | badCharacter s => "Invalid expression: " ++ Text.quoted s
  | noTokens s => "No tokens in expression: " ++ Text.quoted s
  | unknownFunction name => "Unknown function: " ++ Text.quoted name
  | missingOperands op =>
    "Invalid expression (not enough operands for " ++ Text.quoted (String.singleton op.symbol) ++ ")"
  | leftOperands count => "Invalid expression (" ++ toString count ++ " operands left instead of 1)"

end CalculationError

end Reckoner
