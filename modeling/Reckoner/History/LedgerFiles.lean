import Reckoner.History.Fault

/-! The files of a ledger. Beside its own file the storage knows three more, under the same name and a
suffix: the journal of a change that was not ended, the log of changes that are still to be carried over,
and the index of the log. It takes whatever lies in their places for its own, and so it takes away files
that have nothing to do with the ledger, or refuses to open it. Journals and logs that the storage itself has
written are left out, since every call ends its changes. -/

namespace Reckoner.History

/-- A ledger that a call has opened: where it is, if it is in a file, whether it may be changed, and whether a
change of it goes through a log. -/
structure Opened where
  location : Option Location
  ledger : Ledger
  isWritable : Bool
  isLogged : Bool
  deriving DecidableEq

/-- The empty ledger of a call of its own. -/
def Opened.inMemory : Opened := ⟨none, .empty, true, false⟩

/-- The location with a longer name in the same directory. -/
def beside (l : Location) (suffix : String) : Location :=
  l.dropLast ++ [l.getLastD "" ++ suffix]

def journalOf (l : Location) : Location := beside l "-journal"
def logOf (l : Location) : Location := beside l "-wal"
def indexOf (l : Location) : Location := beside l "-shm"

/-- The files that the storage knows beside that of a ledger. -/
def sides (l : Location) : List Location := [journalOf l, logOf l, indexOf l]

/-- The entries at the location of a ledger and beside it. -/
structure LedgerFiles where
  main : Option Entry
  journal : Option Entry
  log : Option Entry
  index : Option Entry
  deriving DecidableEq

def LedgerFiles.of (t : FileTree) (l : Location) : LedgerFiles :=
  ⟨t.get? l, t.get? (journalOf l), t.get? (logOf l), t.get? (indexOf l)⟩

/-- Puts the entries back in a tree. -/
def LedgerFiles.putAt (s : LedgerFiles) (t : FileTree) (l : Location) : FileTree :=
  (((t.set l s.main).set (journalOf l) s.journal).set (logOf l) s.log).set (indexOf l) s.index

def isDirectory : Option Entry → Bool
  | some .directory => true
  | _ => false

/-- Whether an entry is a file that holds something. -/
def isFilled : Option Entry → Bool
  | some (.file (.plain bytes)) => !bytes.isEmpty
  | some (.file (.ledger _)) => true
  | _ => false

/-- Whether an entry is taken for the journal of a change that was not ended. The journal of one that was
begins with zero, and a ledger begins with a letter. -/
def isPending : Option Entry → Bool
  | some (.file (.plain (byte :: _))) => byte != 0
  | some (.file (.ledger _)) => true
  | _ => false

def logHeaderBytes : Nat := 32

/-- Whether an entry is a file that is long enough to begin with the header of a log. -/
def hasHeader : Option Entry → Bool
  | some (.file (.plain bytes)) => logHeaderBytes ≤ bytes.length
  | some (.file (.ledger _)) => true
  | _ => false

/-- What becomes of an entry when a file that holds something is taken away. -/
def emptied (e : Option Entry) : Option Entry :=
  if isFilled e then none else e

/-- The index of a log, as far as its size. -/
def newIndex : Option Entry :=
  some (.file (.plain (List.replicate 0x8000 0)))

/-- The most bytes that the name of a new ledger has; that of its journal is longer by eight. -/
def maxNameBytes : Nat := 247

namespace LedgerFiles

/-- A new file, or the blank one that there is, without a journal that holds something. -/
def blank (s : LedgerFiles) : LedgerFiles :=
  { s with main := s.main.or (some (.file (.plain []))), journal := emptied s.journal }

/-- Makes a ledger of a blank file, or a new one. Without room for a journal the file stays blank. -/
def create (l : Location) (s : LedgerFiles) : LedgerFiles × Except HistoryFault Opened :=
  if isDirectory s.log then (s.blank, .error .notReadable)
  else if isDirectory s.journal || decide (maxNameBytes < (l.getLastD "").utf8ByteSize) then
    ({ s.blank with log := emptied s.log }, .error .notOpened)
  else
    (⟨some (.file (.ledger .empty)), none, emptied s.log, s.index⟩,
      .ok ⟨some l, .empty, true, false⟩)

/-- A blank file that is to be read alone cannot become a ledger. -/
def refuseBlank (s : LedgerFiles) : LedgerFiles × Except HistoryFault Opened :=
  if isDirectory s.log then (s, .error .notReadable)
  else ({ s with log := emptied s.log }, .error .notWritable)

/-- Takes back a change that was not ended, and with it its journal. -/
def takeBack (s : LedgerFiles) : LedgerFiles :=
  if isPending s.journal then { s with journal := none } else s

/-- Makes an index anew, unless a directory is in its place. -/
def reindex (s : LedgerFiles) : LedgerFiles :=
  if isDirectory s.index then s else { s with index := newIndex }

/-- Opens a file with a log that holds something. A ledger that may be changed takes the log over. Where a
directory is in the place of the index, a log that is long enough to be read cannot be, and with a shorter one
the ledger may only be read. -/
def openLogged (l : Location) (access : Access) (ledger? : Option Ledger) (s : LedgerFiles) :
    LedgerFiles × Except HistoryFault Opened :=
  if isDirectory s.index && hasHeader s.log then (s, .error .locked)
  else
    match ledger? with
    | none => (s.reindex, .error .notLedger)
    | some ledger =>
      if decide (access = .readOnly) || isDirectory s.index then
        (s.reindex, .ok ⟨some l, ledger, false, true⟩)
      else ({ s with log := none, index := none }, .ok ⟨some l, ledger, true, true⟩)

/-- Opens a file in which no change is left to be taken back. -/
def openWhole (l : Location) (access : Access) (ledger? : Option Ledger) (s : LedgerFiles) :
    LedgerFiles × Except HistoryFault Opened :=
  if isDirectory s.log then (s, .error .notOpened)
  else if isFilled s.log then s.openLogged l access ledger?
  else
    match ledger? with
    | none => (s, .error .notLedger)
    | some ledger => (s, .ok ⟨some l, ledger, access != .readOnly, false⟩)

/-- Opens a file that holds something, a ledger or anything else. A file that is to be read alone does not
allow to take back a change. -/
def openFilled (l : Location) (access : Access) (ledger? : Option Ledger) (s : LedgerFiles) :
    LedgerFiles × Except HistoryFault Opened :=
  if isDirectory s.journal then (s, .error .notReadable)
  else if isPending s.journal && decide (access = .readOnly) then (s, .error .notWritable)
  else s.takeBack.openWhole l access ledger?

/-- Opens the ledger at a location, and creates it when the access allows it; a file of at most one byte is
blank. A directory can be opened to be read alone, but nothing can be read of it. -/
def openAs (l : Location) (access : Access) (s : LedgerFiles) :
    LedgerFiles × Except HistoryFault Opened :=
  match s.main with
  | some .directory => (s, .error (if access = .readOnly then .notReadable else .notOpened))
  | none => if access = .creating then s.create l else (s, .error .notOpened)
  | some (.file (.plain bytes)) =>
    if 1 < bytes.length then s.openFilled l access none
    else if access = .readOnly then s.refuseBlank
    else s.create l
  | some (.file (.ledger ledger)) => s.openFilled l access (some ledger)

/-- Puts a changed ledger back; the journal of the change is taken away when it ends. -/
def save (opened : Opened) (ledger : Ledger) (s : LedgerFiles) : LedgerFiles :=
  { s with
    main := some (.file (.ledger ledger))
    journal := if opened.isLogged then s.journal else none }

end LedgerFiles

end Reckoner.History
