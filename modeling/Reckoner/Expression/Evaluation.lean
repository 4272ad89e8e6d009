import Reckoner.Expression.Error
import Reckoner.Number.Notation

/-! Evaluation of postfix sequences on a stack of numbers, with a record of every operation in the
order in which they are done. -/

namespace Reckoner

/-- One operation that was done: two numbers joined by an operator, or a function applied to one. -/
inductive Step where
  | operation (left : Binary64) (op : Operator) (right result : Binary64)
  | application (function : String) (operand result : Binary64)
  deriving DecidableEq

namespace Step

def result : Step → Binary64
  | operation _ _ _ r => r
  | application _ _ r => r

def render : Step → String
  | operation x op y r =>
    x.display ++ " " ++ String.singleton op.symbol ++ " " ++ y.display ++ " = " ++ r.display
  | application f x r => f ++ "(" ++ x.display ++ ") = " ++ r.display

end Step

structure Evaluation where
  value : Binary64
  steps : List Step
  deriving DecidableEq

namespace Evaluation

def text (e : Evaluation) : String :=
  e.value.display

def renderedSteps (e : Evaluation) : List String :=
  e.steps.map Step.render

end Evaluation

namespace Postfix

/-- An evaluation under way: the numbers on the stack and the steps done, both newest first. -/
structure Machine where
  stack : List Binary64
  steps : List Step
  deriving DecidableEq

/-- Executes one item: a number is put on the stack, an operator replaces the two numbers on top. -/
def Machine.execute (m : Machine) : PostfixItem → Except CalculationError Machine
  | .number x => .ok { m with stack := x :: m.stack }
  | .operator op =>
    match m.stack with
    | y :: x :: rest =>
      let r := op.apply x y
      .ok ⟨r :: rest, .operation x op y r :: m.steps⟩
    | _ => .error (.missingOperands op)

def Machine.run (m : Machine) : List PostfixItem → Except CalculationError Machine
  | [] => .ok m
  | item :: items =>
    match m.execute item with
    | .ok m => m.run items
    | .error e => .error e

def evaluate (items : List PostfixItem) : Except CalculationError Evaluation :=
  match Machine.run ⟨[], []⟩ items with
  | .error e => .error e
  | .ok ⟨[x], steps⟩ => .ok ⟨x, steps.reverse⟩
  | .ok ⟨stack, _⟩ => .error (.leftOperands stack.length)

end Postfix

end Reckoner
