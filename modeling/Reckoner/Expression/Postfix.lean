import Reckoner.Expression.Token

/-! From infix to postfix. Tokens are read once, from left to right; numbers go straight to the output
and operators wait on a stack until one that binds no tighter arrives. Parentheses need not match: a
closing one without its opening one releases everything that waits, and an opening one that is never
closed has no effect. -/

namespace Reckoner

namespace Postfix

/-- What waits for its right operand, or for its closing parenthesis. -/
inductive Waiting where
  | operator (op : Operator)
  | opening
  deriving DecidableEq, Repr

/-- A conversion under way: the items released so far, newest first, and what waits, newest first. -/
structure Arrangement where
  released : List PostfixItem
  waiting : List Waiting
  deriving DecidableEq

def Arrangement.empty : Arrangement := ⟨[], []⟩

/-- Releases the operators on top of what waits while they bind at least as tightly as `level`. -/
def release (level : Nat) : Arrangement → Arrangement
  | ⟨released, .operator op :: waiting⟩ =>
    if level ≤ op.precedence then release level ⟨.operator op :: released, waiting⟩
    else ⟨released, .operator op :: waiting⟩
  | ⟨released, waiting⟩ => ⟨released, waiting⟩
termination_by a => a.waiting.length

/-- Releases the operators down to the nearest opening parenthesis, and drops that one. -/
def close : Arrangement → Arrangement
  | ⟨released, .operator op :: waiting⟩ => close ⟨.operator op :: released, waiting⟩
  | ⟨released, .opening :: waiting⟩ => ⟨released, waiting⟩
  | ⟨released, []⟩ => ⟨released, []⟩
termination_by a => a.waiting.length

namespace Arrangement

def read (a : Arrangement) : Token → Arrangement
  | .number x => { a with released := .number x :: a.released }
  | .operator op =>
    let a := release op.precedence a
    { a with waiting := .operator op :: a.waiting }
  | .opening => { a with waiting := .opening :: a.waiting }
  | .closing => close a

def waitingItem? : Waiting → Option PostfixItem
  | .operator op => some (.operator op)
  | .opening => none

/-- The postfix sequence when no token is left: what is released, and then the operators that wait. -/
def finish (a : Arrangement) : List PostfixItem :=
  a.released.reverse ++ a.waiting.filterMap waitingItem?

end Arrangement

def ofTokens (tokens : List Token) : List PostfixItem :=
  (tokens.foldl Arrangement.read Arrangement.empty).finish

end Postfix

end Reckoner
