import Reckoner.Expression.Token
import Reckoner.Number.Decimal
import Reckoner.Text.DecimalDigit

/-! Lexemes: the pieces of a text that make tokens. A number is a run of digits, with a fraction when a
point and another run follow at once; each operator and each parenthesis is a lexeme of its own; every
other character is passed over. -/

namespace Reckoner

inductive Lexeme where
  | number (whole : List Char) (fraction : Option (List Char))
  | operator (op : Operator)
  | opening
  | closing
  deriving DecidableEq, Repr

namespace Lexeme

open Text (isDigit digitsValue)

def text : Lexeme → List Char
  | number whole none => whole
  | number whole (some fraction) => whole ++ '.' :: fraction
  | operator op => [op.symbol]
  | opening => ['(']
  | closing => [')']

/-- The token of a lexeme; a number stands for the double nearest to it. -/
def token : Lexeme → Token
  | number whole fraction =>
    let places := fraction.getD []
    .number (Decimal.toBinary64 ⟨digitsValue (whole ++ places), -places.length⟩ false)
  | operator op => .operator op
  | opening => .opening
  | closing => .closing

/-- The lexeme that an operator or a parenthesis makes. -/
def ofSymbol? (c : Char) : Option Lexeme :=
  if c = '(' then some opening
  else if c = ')' then some closing
  else (Operator.ofSymbol? c).map operator

/-- The fraction that a text begins with, after a run of digits: a point and at least one digit. -/
def fraction? : List Char → Option (List Char)
  | '.' :: rest =>
    let digits := rest.takeWhile isDigit
    if digits.isEmpty then none else some digits
  | _ => none

/-- The number that a text begins with, given that it begins with a digit. -/
def leadingNumber (cs : List Char) : Lexeme :=
  number (cs.takeWhile isDigit) (fraction? (cs.dropWhile isDigit))

def afterNumber (cs : List Char) : List Char :=
  let rest := cs.dropWhile isDigit
  match fraction? rest with
  | none => rest
  | some _ => (rest.drop 1).dropWhile isDigit

theorem length_dropWhile_le (p : Char → Bool) (cs : List Char) :
    (cs.dropWhile p).length ≤ cs.length := by
  induction cs with
  | nil => simp
  | cons c cs ih =>
    rw [List.dropWhile_cons]
    split
    · exact Nat.le_trans ih (Nat.le_succ _)
    · exact Nat.le_refl _

/-- A leading number is not empty, so what follows it is shorter. -/
theorem length_afterNumber_lt {c : Char} (h : isDigit c = true) (cs : List Char) :
    (afterNumber (c :: cs)).length < (c :: cs).length := by
  have hrest : ((c :: cs).dropWhile isDigit).length ≤ cs.length := by
    rw [List.dropWhile_cons, if_pos h]
    exact length_dropWhile_le _ _
  unfold afterNumber
  dsimp only
  split
  · exact Nat.lt_succ_of_le hrest
  · refine Nat.lt_succ_of_le (Nat.le_trans (length_dropWhile_le _ _) ?_)
    simp only [List.length_drop]
    omega

def scan : List Char → List Lexeme
  | [] => []
  | c :: rest =>
    if h : isDigit c = true then
      have := length_afterNumber_lt h rest
      leadingNumber (c :: rest) :: scan (afterNumber (c :: rest))
    else
      match ofSymbol? c with
      | some lexeme => lexeme :: scan rest
      | none => scan rest
termination_by cs => cs.length
decreasing_by all_goals simp only [List.length_cons] at *; omega

end Lexeme

end Reckoner
