import Reckoner.Function.Operand
import Reckoner.Text.WholeNumber

/-! Forms: records that are given field by field, as values that may be of any kind. Checking a form
reads every field and tells all that is wrong with it at once, in the order of the fields. -/

namespace Reckoner.Form

/-- A value as it is given; lists and nested records are read by no field. -/
inductive Value where
  | null
  | bool (b : Bool)
  | whole (n : Int)
  | number (x : Binary64)
  | text (s : String)
  | compound
  deriving DecidableEq

inductive Problem where
  | missing
  | notLiteral
  | notText
  | notPath
  | notNumber
  | notNumeral
  | notWhole
  | notWholeNumeral
  | oversized
  | fractional
  | notFinite
  | tooSmall
  | tooLarge
  | notFile
  deriving DecidableEq, Repr

def Problem.code : Problem → String
  | missing => "missing"
  | notLiteral => "literal_error"
  | notText => "string_type"
  | notPath => "path_type"
  | notNumber => "float_type"
  | notNumeral => "float_parsing"
  | notWhole => "int_type"
  | notWholeNumeral => "int_parsing"
  | oversized => "int_parsing_size"
  | fractional => "int_from_float"
  | notFinite => "finite_number"
  | tooSmall => "greater_than_equal"
  | tooLarge => "less_than_equal"
  | notFile => "path_not_file"

structure Complaint where
  field : String
  problem : Problem
  deriving DecidableEq, Repr

/-- A checked value, or all complaints about it. -/
abbrev Checked (α : Type) := Except (List Complaint) α

/-- Two checked values, with the complaints about both. -/
def Checked.and {α β : Type} (x : Checked α) (y : Checked β) : Checked (α × β) :=
  match x, y with
  | .ok a, .ok b => .ok (a, b)
  | .ok _, .error ds => .error ds
  | .error cs, .ok _ => .error cs
  | .error cs, .error ds => .error (cs ++ ds)

abbrev Fields := List (String × Value)

abbrev Reader (α : Type) := Value → Except Problem α

def field? (fields : Fields) (name : String) : Option Value :=
  (fields.find? fun f => f.1 = name).map Prod.snd

def check {α : Type} (name : String) (result : Except Problem α) : Checked α :=
  match result with
  | .ok a => .ok a
  | .error problem => .error [⟨name, problem⟩]

def required {α : Type} (fields : Fields) (name : String) (reader : Reader α) : Checked α :=
  match field? fields name with
  | none => .error [⟨name, .missing⟩]
  | some v => check name (reader v)

/-- Checks a field that has a value of its own when it is not given. -/
def optional {α : Type} (fields : Fields) (name : String) (default : α) (reader : Reader α) :
    Checked α :=
  match field? fields name with
  | none => .ok default
  | some v => check name (reader v)

def readText : Reader String
  | .text s => .ok s
  | _ => .error .notText

def readLiteral {α : Type} (ofText? : String → Option α) : Reader α
  | .text s =>
    match ofText? s with
    | some a => .ok a
    | none => .error .notLiteral
  | _ => .error .notLiteral

def unpadded (s : String) : List Char :=
  ((s.toList.dropWhile Text.isPadding).reverse.dropWhile Text.isPadding).reverse

/-- A text with its underscores taken out, none unless there are some and each of them stands between
two other characters. -/
def withoutUnderscores? (cs : List Char) : Option (List Char) :=
  let parts := cs.splitOn '_'
  if parts.length = 1 || parts.any (·.isEmpty) then none else some parts.flatten

def plainNumeral? (cs : List Char) : Option Binary64 :=
  let (negative, magnitude) := Operand.splitSign cs
  let lower := magnitude.map Char.toLower
  if lower = "inf".toList || lower = "infinity".toList then some (.infinity negative)
  else if lower = "nan".toList then some .nan
  else if magnitude.all (·.toNat < 0x80) then
    (Operand.decimal? magnitude).map (·.toBinary64 negative)
  else none

/-- The number that a numeral writes: a plain one with spaces around it, or one that is plain once its
underscores are taken out, which has no spaces. -/
def numeral? (s : String) : Option Binary64 :=
  match plainNumeral? (unpadded s) with
  | some x => some x
  | none => (withoutUnderscores? s.toList).bind plainNumeral?

def ofWhole (n : Int) : Binary64 :=
  Binary64.ofRatio (n < 0) n.natAbs 1

/-- Reads a number; truth values count as one and zero, and a whole number has to be near a double. -/
def readNumber : Reader Binary64
  | .number x => .ok x
  | .whole n => if (ofWhole n).isInfinite then .error .notNumber else .ok (ofWhole n)
  | .bool b => .ok (if b then 1 else 0)
  | .text s =>
    match numeral? s with
    | some x => .ok x
    | none => .error .notNumeral
  | .null | .compound => .error .notNumber

/-- A text without a plus sign at its beginning, none when a minus sign follows. -/
def withoutPlus? : List Char → Option (List Char)
  | '+' :: '-' :: _ => none
  | '+' :: rest => some rest
  | cs => some cs

/-- What follows the zeros of a text: leading zeros, with underscores after the first of them. The
character before a point stays, and so does the last one of all; a text with anything else in this
place is none. -/
def afterZeros? (last : Char) : List Char → Option (List Char)
  | [] => some [last]
  | c :: rest =>
    if c = '0' || c = '_' then afterZeros? c rest
    else if c = '.' then some (last :: c :: rest)
    else if c.isDigit || c = '-' then some (c :: rest)
    else none

/-- A text without the zeros that it begins with; it has to begin with a digit or a minus sign. -/
def withoutZeros? : List Char → Option (List Char)
  | '0' :: rest => afterZeros? '0' rest
  | c :: rest => if c.isDigit || c = '-' then some (c :: rest) else none
  | [] => none

/-- A text without its first point and what follows, if that is one zero or more. -/
def withoutFraction (cs : List Char) : List Char :=
  let fraction := (cs.dropWhile (· != '.')).drop 1
  if !fraction.isEmpty && fraction.all (· = '0') then cs.takeWhile (· != '.') else cs

/-- The digits of a whole numeral, with its sign, once what it may be written with is taken off. -/
def wholeDigits? (s : String) : Option (List Char) :=
  (withoutPlus? (unpadded s)).bind fun cs =>
    (withoutZeros? cs).map fun cs =>
      let cs := withoutFraction cs
      (withoutUnderscores? cs).getD cs

def wholeNumeral (s : String) : Except Problem Int :=
  match wholeDigits? s with
  | none => .error .notWholeNumeral
  | some cs =>
    if Text.maxDigits < cs.length then .error .oversized
    else
      let (negative, digits) :=
        match cs with
        | '-' :: digits => (true, digits)
        | digits => (false, digits)
      if digits.isEmpty || !digits.all Char.isDigit then .error .notWholeNumeral
      else
        let n : Int := Text.digitsValue digits
        .ok (if negative then -n else n)

/-- The whole numbers that a number may stand for lie strictly between the two of this size. -/
def wholeBound : Int := 0x8000000000000000

/-- Reads a whole number; truth values count as one and zero. -/
def readWhole : Reader Int
  | .whole n => .ok n
  | .bool b => .ok (if b then 1 else 0)
  | .number (.finite s u _) =>
    if !Binary64.isWhole u then .error .fractional
    else if Binary64.wholePart u < wholeBound then
      .ok (Binary64.signedUnits s (Binary64.wholePart u))
    else .error .oversized
  | .number _ => .error .notFinite
  | .text s => wholeNumeral s
  | .null | .compound => .error .notWhole

end Reckoner.Form
