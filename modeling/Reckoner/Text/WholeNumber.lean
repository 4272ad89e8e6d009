import Reckoner.Text.Blank
import Reckoner.Text.DecimalDigit

/-! Whole numbers as a user types them: a sign or none, digits of any script with single underscores
between them, and spaces around. -/

namespace Reckoner.Text

def maxDigits : Nat := 4300

/-- Whether a blank may stand around a whole number; the four information separators may not. -/
def isPadding (c : Char) : Bool :=
  isBlank c && !(0x1C ≤ c.toNat && c.toNat ≤ 0x1F)

/-- The digits of a text in which each underscore stands between two digits. -/
def groupedDigits? : List Char → Option (List Char)
  | [] => none
  | [c] => if isDigit c then some [c] else none
  | c :: '_' :: rest => if isDigit c then (groupedDigits? rest).map (c :: ·) else none
  | c :: rest => if isDigit c then (groupedDigits? rest).map (c :: ·) else none

/-- Reads a whole number, none when the text writes none or is too long. -/
def wholeNumber? (s : String) : Option Int :=
  let text := ((s.toList.dropWhile isPadding).reverse.dropWhile isPadding).reverse
  let (negative, digits) :=
    match text with
    | '-' :: rest => (true, rest)
    | '+' :: rest => (false, rest)
    | rest => (false, rest)
  match groupedDigits? digits with
  | none => none
  | some ds =>
    if maxDigits < ds.length then none
    else some (if negative then -(digitsValue ds : Int) else digitsValue ds)

end Reckoner.Text
