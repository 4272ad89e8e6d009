import Reckoner.Number.Decimal
import Reckoner.Text.Blank
import Reckoner.Text.DecimalDigit

/-! The operand of a function, read from what a user typed: a decimal number with a sign, a point and a
power of ten, each optional, or the word for infinity. -/

namespace Reckoner.Operand

open Text (isDigit digitsValue)

/-- A sign, if the text begins with one, and the rest. -/
def splitSign : List Char → Bool × List Char
  | '+' :: rest => (false, rest)
  | '-' :: rest => (true, rest)
  | rest => (false, rest)

/-- The power of ten that a text writes, zero when it is empty, none when it is something else. -/
def exponent? : List Char → Option Int
  | [] => some 0
  | c :: rest =>
    if c = 'e' || c = 'E' then
      let (negative, digits) := splitSign rest
      if digits.isEmpty || !digits.all isDigit then none
      else some (if negative then -(digitsValue digits : Int) else digitsValue digits)
    else none

/-- The digits before and after the point that a text begins with, and the rest. -/
def splitDigits (cs : List Char) : List Char × List Char × List Char :=
  match cs.dropWhile isDigit with
  | '.' :: rest => (cs.takeWhile isDigit, rest.takeWhile isDigit, rest.dropWhile isDigit)
  | rest => (cs.takeWhile isDigit, [], rest)

/-- The decimal that a text without a sign writes: at least one digit, before or after the point. -/
def decimal? (cs : List Char) : Option Decimal :=
  let (whole, fraction, rest) := splitDigits cs
  if whole.isEmpty && fraction.isEmpty then none
  else (exponent? rest).map fun e => ⟨digitsValue (whole ++ fraction), e - fraction.length⟩

/-- The number that a trimmed text writes, not-a-number when it writes none. -/
def ofTrimmed (cs : List Char) : Binary64 :=
  let (negative, magnitude) := splitSign cs
  if magnitude = "Infinity".toList then .infinity negative
  else
    match decimal? magnitude with
    | some d => d.toBinary64 negative
    | none => .nan

/-- The operand that a text writes; a blank text is zero. -/
def parse (s : String) : Binary64 :=
  match Text.trim s.toList with
  | [] => 0
  | cs => ofTrimmed cs

end Reckoner.Operand
