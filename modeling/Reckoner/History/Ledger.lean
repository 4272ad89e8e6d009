/-! The ledger of calculations: records in the order of their insertion, each with a number that no
other record of the ledger ever has, not even after the ledger is cleared. -/

namespace Reckoner

/-- A stored calculation: its number, its input as it was typed and its result as it was shown. -/
structure Record where
  id : Nat
  input : String
  result : String
  deriving DecidableEq, Repr

/-- The records that are kept, newest first, and the number of the last record ever inserted. -/
structure Ledger where
  records : List Record
  lastId : Nat
  deriving DecidableEq, Repr

namespace Ledger

def empty : Ledger := ⟨[], 0⟩

def next (l : Ledger) (input result : String) : Record :=
  ⟨l.lastId + 1, input, result⟩

def insert (l : Ledger) (input result : String) : Ledger :=
  ⟨l.next input result :: l.records, l.lastId + 1⟩

def recent (l : Ledger) (limit : Nat) : List Record :=
  l.records.take limit

def clear (l : Ledger) : Ledger :=
  { l with records := [] }

def size (l : Ledger) : Nat :=
  l.records.length

end Ledger

end Reckoner
