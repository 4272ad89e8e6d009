import Reckoner.Expression.Evaluation
import Reckoner.Expression.Lexeme
import Reckoner.Expression.Postfix

/-! Arithmetic expressions as a user types them: checked, read as tokens, brought into postfix order and
evaluated. -/

namespace Reckoner.Expression

/-- The characters that an expression may hold besides the ASCII digits. -/
def allowedSymbols : List Char :=
  ['+', '-', '*', '/', '.', '(', ')', ' ']

def isAllowed (c : Char) : Bool :=
  c.isDigit || allowedSymbols.contains c

/-- Refuses the empty text and every character that no expression holds. -/
def validate (s : String) : Except CalculationError Unit :=
  if s.toList ≠ [] ∧ s.toList.all isAllowed then .ok () else .error (.badCharacter s)

/-- The tokens of a text, refused when there is none. -/
def tokens (s : String) : Except CalculationError (List Token) :=
  match (Lexeme.scan s.toList).map Lexeme.token with
  | [] => .error (.noTokens s)
  | ts => .ok ts

def evaluate (s : String) : Except CalculationError Evaluation := do
  validate s
  let ts ← tokens s
  Postfix.evaluate (Postfix.ofTokens ts)

end Reckoner.Expression
