import Reckoner.Files.TextFormats
import Reckoner.Run
import Reckoner.Text.Utf8

/-! The command line. The files that an invocation names are read into a tree, the invocation is run
on it, and what has changed is written back. Ledgers and archives are files of formats of their own; any
other file is its bytes. -/

open Reckoner

namespace Reckoner.Disk

def pathOf (l : Location) : String :=
  "/" ++ "/".intercalate l

attribute [local instance] FileFormats.textual MathLibrary.ofSeries

def contentOf (bytes : List UInt8) : FileContent :=
  match (Text.utf8Decode bytes).toOption.bind Ledger.ofText? with
  | some ledger => .ledger ledger
  | none => .plain bytes

/-- Whether a location is a directory: only a directory has an entry of one point. -/
def isDirectory (l : Location) : IO Bool := do
  try
    let _ ← IO.FS.realPath (pathOf l ++ "/.")
    return true
  catch _ => return false

/-- Reads the entry at a location into a tree, if there is one. -/
def load (t : FileTree) (l : Location) : IO FileTree := do
  if l.isEmpty then return t
  else if ← isDirectory l then return t.put l .directory
  else
    try
      let bytes ← IO.FS.readBinFile (pathOf l)
      return t.put l (.file (contentOf bytes.toList))
    catch _ => return t

/-- Reads every entry on the way of a path into a tree. -/
def loadPath (t : FileTree) (p : Path) : IO FileTree := do
  let ways := p.names.foldl (fun ls name => FileTree.step (ls.headD []) name :: ls) [t.start p.anchor]
  ways.reverse.foldlM load t

/-- The tree of the current directory and of the entries on the way of some paths. -/
def tree (paths : List Path) : IO FileTree := do
  let here := Path.ofString (← IO.currentDir).toString
  let t ← loadPath .empty here
  paths.foldlM loadPath { t with current := here.names }

/-- Takes away the files that a tree has no longer, and writes the entries that differ. -/
def save (old new : FileTree) : IO Unit := do
  for (l, _) in old.entries do
    if (new.get? l).isNone then IO.FS.removeFile (pathOf l)
  for (l, e) in new.entries do
    if old.get? l ≠ some e then
      match e with
      | .directory => IO.FS.createDirAll (pathOf l)
      | .file content => IO.FS.writeBinFile (pathOf l) ⟨content.bytes.toArray⟩

end Reckoner.Disk

namespace Reckoner

attribute [local instance] FileFormats.textual MathLibrary.ofSeries

/-- The paths of the files of a history: its own path, that of the file its address names, and those of the
files that the storage knows beside it. -/
def History.paths (p : Path) : List Path :=
  match (History.Address.ofPath p).toOption.bind History.Address.file? with
  | none => [p]
  | some q => p :: q :: (History.sides q.names).map fun names => { q with names }

def Invocation.Draft.paths (draft : Invocation.Draft) : List Path :=
  let history : List Path :=
    match draft.historyFile with
    | .text file => History.paths (Path.ofString file)
    | _ => []
  let source : List Path :=
    match draft.command with
    | .batch source =>
      let source := Path.ofString source
      source :: (Batch.resultsPath source).toOption.toList
    | _ => []
  history ++ source

def helpText : String :=
  "usage: " ++ Invocation.program ++ " [--db PATH] [--history-limit N] [-v] COMMAND\n\n" ++
  "  eval EXPRESSION          evaluate an expression\n" ++
  "  fn FUNCTION [OPERAND]    apply a function to a number\n" ++
  "  history [--limit N]      show the newest calculations\n" ++
  "  clear                    remove every calculation\n" ++
  "  batch FILE               evaluate every line of a file\n"

/-- What is told of a rejection, and the exit code. -/
def Rejection.report : Rejection → String × UInt32
  | .arguments .help => (helpText, 0)
  | .arguments (.usage program message) => (Arguments.usageLine program message ++ "\n", 2)
  | .values complaints =>
    let told := complaints.map fun c => c.field ++ " (" ++ c.problem.code ++ ")"
    (Arguments.usageLine Invocation.program ("invalid values: " ++ ", ".intercalate told) ++ "\n", 2)
  | .source fault => (fault.message ++ "\n", 1)

def runOnDisk (args : List String) : IO UInt32 := do
  let paths :=
    match Invocation.readDraft args with
    | .ok draft => draft.paths
    | .error _ => []
  let files ← Disk.tree paths
  match Run.arguments files args with
  | .error rejection =>
    let (text, code) := rejection.report
    if code = 0 then IO.print text else IO.eprint text
    return code
  | .ok outcome =>
    Disk.save files outcome.world.files
    for m in outcome.world.messages do
      IO.eprintln (m.level.name ++ " | " ++ m.text)
    IO.print outcome.output
    match outcome.exit with
    | .ok code => return code.toUInt32
    | .error fault =>
      IO.eprintln fault.message
      return 1

end Reckoner

def main (args : List String) : IO UInt32 :=
  runOnDisk args
