import Reckoner.Number.Binary64

/-! Tokens of arithmetic expressions: numbers, the four operators and the two parentheses. -/

namespace Reckoner

inductive Operator where
  | add
  | sub
  | mul
  | div
  deriving DecidableEq, Repr

namespace Operator

def symbol : Operator → Char
  | add => '+'
  | sub => '-'
  | mul => '*'
  | div => '/'

def ofSymbol? : Char → Option Operator
  | '+' => some add
  | '-' => some sub
  | '*' => some mul
  | '/' => some div
  | _ => none

def precedence : Operator → Nat
  | add => 1
  | sub => 1
  | mul => 2
  | div => 2

def apply : Operator → Binary64 → Binary64 → Binary64
  | add, x, y => x + y
  | sub, x, y => x - y
  | mul, x, y => x * y
  | div, x, y => x / y

@[simp] theorem ofSymbol?_symbol (o : Operator) : ofSymbol? o.symbol = some o := by
  cases o <;> rfl

theorem ofSymbol?_eq_some_iff {c : Char} {o : Operator} : ofSymbol? c = some o ↔ c = o.symbol := by
  constructor
  · intro h
    unfold ofSymbol? at h
    split at h <;> cases h <;> rfl
  · rintro rfl
    exact ofSymbol?_symbol o

end Operator

inductive Token where
  | number (value : Binary64)
  | operator (op : Operator)
  | opening
  | closing
  deriving DecidableEq

inductive PostfixItem where
  | number (value : Binary64)
  | operator (op : Operator)
  deriving DecidableEq

end Reckoner
