import Reckoner.Expression.Evaluation
import Reckoner.Form.Basic

/-! The forms of steps and tokens. -/

namespace Reckoner

namespace Form

def readOperator : Reader Operator :=
  readLiteral fun s =>
    match s.toList with
    | [c] => Operator.ofSymbol? c
    | _ => none

def readFixed (expected : String) : Reader String :=
  readLiteral fun s => if s = expected then some s else none

def readParenthesis : Reader Token :=
  readLiteral fun s => if s = "(" then some .opening else if s = ")" then some .closing else none

end Form

open Form

def Step.operationOfFields (fields : Fields) : Checked Step :=
  let number := fun name => required fields name readNumber
  match (number "left").and
      ((required fields "operator" readOperator).and ((number "right").and (number "result"))) with
  | .ok (x, op, y, r) => .ok (.operation x op y r)
  | .error cs => .error cs

def Step.applicationOfFields (fields : Fields) : Checked Step :=
  let number := fun name => required fields name readNumber
  match (required fields "function" readText).and ((number "operand").and (number "result")) with
  | .ok (f, x, r) => .ok (.application f x r)
  | .error cs => .error cs

/-- The token that a form gives: its kind may be given too, and then has to be the right one. -/
def Token.ofFields (kind field : String) (reader : Reader Token) (fields : Fields) : Checked Token :=
  match (optional fields "kind" kind (readFixed kind)).and (required fields field reader) with
  | .ok (_, token) => .ok token
  | .error cs => .error cs

def Token.numberOfFields : Fields → Checked Token :=
  Token.ofFields "number" "value" fun v => (readNumber v).map .number

def Token.operatorOfFields : Fields → Checked Token :=
  Token.ofFields "operator" "symbol" fun v => (readOperator v).map .operator

def Token.parenthesisOfFields : Fields → Checked Token :=
  Token.ofFields "paren" "symbol" readParenthesis

def Token.render : Token → String
  | .number x => x.display
  | .operator op => String.singleton op.symbol
  | .opening => "("
  | .closing => ")"

end Reckoner
