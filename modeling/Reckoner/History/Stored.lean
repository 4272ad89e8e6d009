import Reckoner.History.Ledger
import Reckoner.Text.EscapedLine

/-! The text that a ledger is stored as. Its first line names the format and its second one holds the
number of the last record ever inserted; every record, newest first, takes three lines, its number,
its input and its result. A ledger is read back as it was written (`ofText?_toText`). -/

namespace Reckoner.Ledger

open Text (lineText lines? lines?_lineText)

def formatName : List Char := "ledger of calculations".toList

def number? (line : List Char) : Option Nat :=
  if !line.isEmpty && line.all Char.isDigit then some (Nat.ofDigitChars 10 line 0) else none

def recordText (r : Record) : List Char :=
  lineText (Nat.toDigits 10 r.id) ++ lineText r.input.toList ++ lineText r.result.toList

/-- The records of which lines hold three each. -/
def records? : List (List Char) → Option (List Record)
  | [] => some []
  | id :: input :: result :: rest =>
    match number? id, records? rest with
    | some id, some records => some (⟨id, String.ofList input, String.ofList result⟩ :: records)
    | _, _ => none
  | _ => none

def toText (l : Ledger) : List Char :=
  lineText formatName ++ lineText (Nat.toDigits 10 l.lastId) ++ l.records.flatMap recordText

def ofText? (text : List Char) : Option Ledger :=
  match lines? text with
  | some (name :: lastId :: rest) =>
    if name = formatName then
      match number? lastId, records? rest with
      | some lastId, some records => some ⟨records, lastId⟩
      | _, _ => none
    else none
  | _ => none

theorem number?_toDigits (n : Nat) : number? (Nat.toDigits 10 n) = some n := by
  have hne : Nat.toDigits 10 n ≠ [] := by
    intro h
    have := congrArg List.length h
    simp at this
  have hall : (Nat.toDigits 10 n).all Char.isDigit = true :=
    List.all_eq_true.2 fun _ hc => Nat.isDigit_of_mem_toDigits (by decide) (by decide) hc
  simp [number?, hne, hall, Nat.ofDigitChars_toDigits]

def recordLines (rs : List Record) : List (List Char) :=
  rs.flatMap fun r => [Nat.toDigits 10 r.id, r.input.toList, r.result.toList]

theorem lines?_records (rs : List Record) :
    lines? (rs.flatMap recordText) = some (recordLines rs) := by
  induction rs with
  | nil => rfl
  | cons r rs ih =>
    simp only [List.flatMap_cons, recordText, List.append_assoc, lines?_lineText, ih]
    rfl

theorem records?_recordLines (rs : List Record) : records? (recordLines rs) = some rs := by
  induction rs with
  | nil => rfl
  | cons r rs ih =>
    show records? (Nat.toDigits 10 r.id :: r.input.toList :: r.result.toList :: recordLines rs) = _
    simp [records?, number?_toDigits, ih]

theorem ofText?_toText (l : Ledger) : ofText? l.toText = some l := by
  simp [ofText?, toText, List.append_assoc, lines?_lineText, lines?_records, number?_toDigits,
    records?_recordLines]

end Reckoner.Ledger
