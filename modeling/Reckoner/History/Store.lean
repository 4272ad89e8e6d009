import Reckoner.History.LedgerFiles
import Reckoner.World

/-! The history of calculations: a ledger in a file. Each call opens the file anew. The directories of
its path are made, a missing or a blank file becomes an empty ledger, and a file that holds anything
else is refused. -/

namespace Reckoner

namespace History

/-! ### Opening -/

def maxPathBytes : Nat := 504

def pathBytes (l : Location) : Nat :=
  l.foldl (fun bytes name => bytes + 1 + name.utf8ByteSize) 0

/-- Follows names from a location. A step to the parent takes back the name before it, whether or not
there is such an entry; but nothing is in a file, and no name is too long. -/
def resolve? (t : FileTree) (l : Location) : List String → Option Location
  | [] => some l
  | name :: names =>
    if name = ".." then resolve? t l.dropLast names
    else if Path.isLongName name then none
    else
      match t.get? l with
      | some (.file _) => none
      | _ => resolve? t (l ++ [name]) names

/-- The location of the ledger of a path; it has to be in a directory. -/
def locate? (t : FileTree) (p : Path) : Option Location :=
  match resolve? t (t.start p.anchor) p.names with
  | none => none
  | some l =>
    if maxPathBytes < pathBytes l || t.get? l.dropLast != some .directory then none else some l

/-- Opens the ledger at a location. -/
def openAt (t : FileTree) (l : Location) (access : Access) :
    FileTree × Except HistoryFault Opened :=
  let opening := (LedgerFiles.of t l).openAs l access
  (opening.1.putAt t l, opening.2)

def openAddress (t : FileTree) (a : Address) : FileTree × Except HistoryFault Opened :=
  match a.file? with
  | none => (t, if a.access = .readOnly then .error .notWritable else .ok .inMemory)
  | some p =>
    match locate? t p with
    | none => (t, .error .notOpened)
    | some l => openAt t l a.access

/-- How many missing directories can be made for a path. Each is made by a call inside the call that makes
the next, and calls lie inside each other up to a limit. -/
def maxMissing : Nat := 987

/-- Opens the ledger of a path, in directories that are made so far as they are missing. -/
def openLedger (t : FileTree) (p : Path) : FileTree × Except HistoryFault Opened :=
  if p.parent.hasNull then (t, .error .nullCharacter)
  else if maxMissing < t.missing p.parent then (t, .error .tooDeep)
  else
    match t.makeDirectories p.parent with
    | (t, .error fault) => (t, .error (.file fault))
    | (t, .ok ()) =>
      if p.hasNull then (t, .error .nullCharacter)
      else
        match Address.ofPath p with
        | .error fault => (t, .error (.address fault))
        | .ok a => openAddress t a

/-! ### Calls -/

/-- Puts a changed ledger back where it was opened. -/
def save (t : FileTree) (opened : Opened) (ledger : Ledger) : FileTree :=
  match opened.location with
  | none => t
  | some l => ((LedgerFiles.of t l).save opened ledger).putAt t l

/-- Opens the ledger of a path to change it. -/
def openWritable (t : FileTree) (p : Path) : FileTree × Except HistoryFault Opened :=
  match openLedger t p with
  | (t, .error fault) => (t, .error fault)
  | (t, .ok opened) => if opened.isWritable then (t, .ok opened) else (t, .error .notWritable)

def insert (w : World) (p : Path) (input result : String) : World × Except HistoryFault Record :=
  match openWritable w.files p with
  | (files, .error fault) => ({ w with files }, .error fault)
  | (files, .ok opened) =>
    let record := opened.ledger.next input result
    let w := { w with files := save files opened (opened.ledger.insert input result) }
    (w.log .debug ("💾 Stored calculation #" ++ toString record.id ++ ": " ++ input ++ " = " ++ result),
      .ok record)

def maxLimit : Int := 0x7FFFFFFFFFFFFFFF

def recent (w : World) (p : Path) (limit : Int) : World × Except HistoryFault (List Record) :=
  if limit < 1 then (w, .error (.limitTooSmall limit))
  else
    match openLedger w.files p with
    | (files, .error fault) => ({ w with files }, .error fault)
    | (files, .ok opened) =>
      let w := { w with files }
      if maxLimit < limit then (w, .error .limitTooLarge)
      else (w, .ok (opened.ledger.recent limit.toNat))

def clear (w : World) (p : Path) : World × Except HistoryFault Nat :=
  match openWritable w.files p with
  | (files, .error fault) => ({ w with files }, .error fault)
  | (files, .ok opened) =>
    let count := opened.ledger.size
    let w := { w with files := save files opened opened.ledger.clear }
    (w.log .info ("🧹 Cleared " ++ toString count ++ " history record(s)"), .ok count)

end History

end Reckoner
