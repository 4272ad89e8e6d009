import Reckoner.Files.Tree
import Reckoner.History.Address

/-! What can keep a call on the history from its answer. -/

namespace Reckoner

inductive HistoryFault where
  | file (fault : FileFault)
  | address (fault : History.AddressFault)
  | notOpened
  | notReadable
  | notLedger
  | notWritable
  | locked
  | nullCharacter
  | tooDeep
  | limitTooSmall (limit : Int)
  | limitTooLarge
  deriving DecidableEq, Repr

namespace HistoryFault

def message : HistoryFault → String
  | file fault => fault.message
  | address fault => fault.message
  | notOpened => "unable to open database file"
  | notReadable => "disk I/O error"
  | notLedger => "file is not a database"
  | notWritable => "attempt to write a readonly database"
  | locked => "locking protocol"
  | nullCharacter => "embedded null byte"
  | tooDeep => "maximum recursion depth exceeded while calling a Python object"
  | limitTooSmall limit => "limit must be at least 1, got " ++ toString limit
  | limitTooLarge => "Python int too large to convert to SQLite INTEGER"

def faultClass : HistoryFault → FaultClass
  | file fault => fault.faultClass
  | address _ | notOpened | notReadable | notWritable | locked => .operational
  | notLedger => .database
  | nullCharacter | limitTooSmall _ => .value
  | tooDeep => .recursion
  | limitTooLarge => .overflow

/-- Whether the fault lies in the storage, and not in what was asked of it. -/
def isStorage (fault : HistoryFault) : Bool :=
  fault.faultClass.isHandledBy [.storage, .system]

theorem isStorage_file (fault : FileFault) : (file fault).isStorage = true := by
  cases fault <;> rfl

end HistoryFault

end Reckoner
