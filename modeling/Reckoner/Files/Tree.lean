import Reckoner.Fault
import Reckoner.Files.Path
import Reckoner.History.Ledger
import Reckoner.Text.Quoted

/-! The file tree that commands act on, as a value. Every directory and every file has a location, the
names that lead to it from the root; the root is a directory in every tree. A path is followed one
name at a time, from the root or from the current directory, and every name that is left behind has to
be a directory. -/

namespace Reckoner

/-- What a file holds: bytes, or a database that is a ledger of calculations. Other databases, and a
ledger that someone has changed from outside, are left out. -/
inductive FileContent where
  | plain (bytes : List UInt8)
  | ledger (l : Ledger)
  deriving DecidableEq, Repr

inductive Entry where
  | directory
  | file (content : FileContent)
  deriving DecidableEq, Repr

/-- The names that lead from the root to an entry. -/
abbrev Location := List String

/-- A tree as its entries other than the root, and the directory where relative paths start. -/
structure FileTree where
  entries : List (Location × Entry)
  current : Location
  deriving DecidableEq, Repr

inductive FileFault where
  | missing (p : Path)
  | exists (p : Path)
  | notDirectory (p : Path)
  | isDirectory (p : Path)
  | tooLong (p : Path)
  deriving DecidableEq, Repr

def FileFault.faultClass : FileFault → FaultClass
  | missing _ => .fileMissing
  | .exists _ => .fileExists
  | notDirectory _ => .notDirectory
  | isDirectory _ => .isDirectory
  | tooLong _ => .system

/-- The message of a file fault: the number and the text of its cause, and the path. -/
def FileFault.message : FileFault → String
  | missing p => "[Errno 2] No such file or directory: " ++ Text.quoted p.text
  | .exists p => "[Errno 17] File exists: " ++ Text.quoted p.text
  | notDirectory p => "[Errno 20] Not a directory: " ++ Text.quoted p.text
  | isDirectory p => "[Errno 21] Is a directory: " ++ Text.quoted p.text
  | tooLong p => "[Errno 36] File name too long: " ++ Text.quoted p.text

namespace FileTree

def empty : FileTree := ⟨[], []⟩

def get? (t : FileTree) (l : Location) : Option Entry :=
  if l.isEmpty then some .directory else t.entries.lookup l

/-- Entries with one put at a location, in the place of the one that is there. -/
def putEntry (l : Location) (e : Entry) : List (Location × Entry) → List (Location × Entry)
  | [] => [(l, e)]
  | old :: rest => if old.1 = l then (l, e) :: rest else old :: putEntry l e rest

def put (t : FileTree) (l : Location) (e : Entry) : FileTree :=
  { t with entries := putEntry l e t.entries }

/-- Takes away what is at a location. -/
def remove (t : FileTree) (l : Location) : FileTree :=
  { t with entries := t.entries.filter (·.1 != l) }

/-- Puts an entry at a location, or takes away what is there. -/
def set (t : FileTree) (l : Location) : Option Entry → FileTree
  | some e => t.put l e
  | none => t.remove l

theorem lookup_cons_eq_ite (m : Location) (old : Location × Entry)
    (rest : List (Location × Entry)) :
    (old :: rest).lookup m = if m = old.1 then some old.2 else rest.lookup m := by
  obtain ⟨l, e⟩ := old
  by_cases h : m = l
  · simp [h]
  · simp [List.lookup_cons, beq_false_of_ne h, h]

theorem lookup_putEntry (l m : Location) (e : Entry) (entries : List (Location × Entry)) :
    (putEntry l e entries).lookup m = if m = l then some e else entries.lookup m := by
  induction entries with
  | nil => rw [putEntry, lookup_cons_eq_ite]
  | cons old rest ih =>
    rw [putEntry, lookup_cons_eq_ite m old rest]
    by_cases hold : old.1 = l
    · rw [if_pos hold, lookup_cons_eq_ite, hold]
      by_cases h : m = l <;> simp [h]
    · rw [if_neg hold, lookup_cons_eq_ite, ih]
      by_cases h : m = l
      · simp [h, Ne.symm hold]
      · simp [h]

theorem get?_put_self (t : FileTree) {l : Location} (e : Entry) (h : l ≠ []) :
    (t.put l e).get? l = some e := by
  simp [get?, put, h, lookup_putEntry]

theorem get?_put_of_ne (t : FileTree) {l m : Location} (e : Entry) (h : m ≠ l) :
    (t.put l e).get? m = t.get? m := by
  simp [get?, put, h, lookup_putEntry]

theorem lookup_filter_ne (l m : Location) (entries : List (Location × Entry)) :
    (entries.filter (·.1 != l)).lookup m = if m = l then none else entries.lookup m := by
  induction entries with
  | nil => simp
  | cons old rest ih =>
    rw [List.filter_cons, lookup_cons_eq_ite m old rest]
    by_cases hold : old.1 = l
    · rw [if_neg (by simp [hold]), ih]
      by_cases h : m = l <;> simp [h, hold]
    · rw [if_pos (by simp [hold]), lookup_cons_eq_ite, ih]
      by_cases h : m = l
      · simp [h, Ne.symm hold]
      · simp [h]

theorem get?_set_self (t : FileTree) {l : Location} (e : Option Entry) (h : l ≠ []) :
    (t.set l e).get? l = e := by
  cases e with
  | some e => exact get?_put_self t e h
  | none => simp [set, get?, remove, h, lookup_filter_ne]

theorem get?_set_of_ne (t : FileTree) {l m : Location} (e : Option Entry) (h : m ≠ l) :
    (t.set l e).get? m = t.get? m := by
  cases e with
  | some e => exact get?_put_of_ne t e h
  | none => simp [set, get?, remove, h, lookup_filter_ne]

/-- One step from a location: to its parent or to the entry of a name in it. -/
def step (l : Location) (name : String) : Location :=
  if name = ".." then l.dropLast else l ++ [name]

/-- Follows names from a location; tells whether the way ends at something that is missing, at
something that is no directory or at a name that is too long. -/
def follow (t : FileTree) (p : Path) (l : Location) : List String → Except FileFault Location
  | [] => .ok l
  | name :: names =>
    match t.get? l with
    | some .directory =>
      if Path.isLongName name then .error (.tooLong p) else follow t p (step l name) names
    | some (.file _) => .error (.notDirectory p)
    | none => .error (.missing p)

def start (t : FileTree) : Anchor → Location
  | .here => t.current
  | .root | .doubleRoot => []

/-- The location that a path leads to. -/
def locate (t : FileTree) (p : Path) : Except FileFault Location :=
  if p.isLong then .error (.tooLong p) else t.follow p (t.start p.anchor) p.names

/-- Whether a path leads to a file; of a path that is too long it cannot be told. -/
def isFile (t : FileTree) (p : Path) : Except FileFault Bool :=
  match t.locate p with
  | .error (.tooLong p) => .error (.tooLong p)
  | .error _ => .ok false
  | .ok l =>
    match t.get? l with
    | some (.file _) => .ok true
    | _ => .ok false

def read (t : FileTree) (p : Path) : Except FileFault FileContent :=
  match t.locate p with
  | .error fault => .error fault
  | .ok l =>
    match t.get? l with
    | some (.file content) => .ok content
    | some .directory => .error (.isDirectory p)
    | none => .error (.missing p)

/-- Writes the file that a path leads to; it need not exist, but the directory it is in has to. -/
def write (t : FileTree) (p : Path) (content : FileContent) : Except FileFault FileTree :=
  match t.locate p with
  | .error fault => .error fault
  | .ok l =>
    match t.get? l with
    | some .directory => .error (.isDirectory p)
    | _ => .ok (t.put l (.file content))

/-- How many names are left to follow from a location where the first of them leads to nothing. It is zero
when they lead to a directory, or a file or a name that is too long comes before. -/
def missingFrom (t : FileTree) (l : Location) : List String → Nat
  | [] => 0
  | name :: names =>
    if Path.isLongName name then 0
    else
      match t.get? (step l name) with
      | some .directory => missingFrom t (step l name) names
      | some (.file _) => 0
      | none => names.length + 1

/-- How many directories of a path are missing before it can be made. -/
def missing (t : FileTree) (p : Path) : Nat :=
  if p.isLong then 0 else t.missingFrom (t.start p.anchor) p.names

/-- Follows the names of a path from a location and makes the directories that are missing. A file in
the way and a name that is too long are faults of the whole path, or of the path up to there when a
directory was made before. -/
def makeFrom (t : FileTree) (p : Path) (made : Bool) (l : Location) (passed : List String) :
    List String → FileTree × Except FileFault Unit
  | [] => (t, .ok ())
  | name :: names =>
    let next := step l name
    let passed := passed ++ [name]
    let blamed : Path := if made then { p with names := passed } else p
    if Path.isLongName name then (t, .error (.tooLong blamed))
    else
      match t.get? next with
      | some .directory => makeFrom t p made next passed names
      | some (.file _) =>
        (t, .error (if made || names.isEmpty then .exists blamed else .notDirectory blamed))
      | none => makeFrom (t.put next .directory) p true next passed names

/-- Makes the directory of a path and those it is in, so far as they are missing. -/
def makeDirectories (t : FileTree) (p : Path) : FileTree × Except FileFault Unit :=
  if p.isLong then (t, .error (.tooLong p))
  else t.makeFrom p false (t.start p.anchor) [] p.names

end FileTree

end Reckoner
