import Reckoner.Files.Path
import Reckoner.Form.Basic
import Reckoner.Log

/-! The settings of a calculator: where its history is, how much of it is shown and which messages are
logged. -/

namespace Reckoner

def maxHistoryLimit : Nat := 1000

structure Settings where
  historyPath : Path
  historyLimit : Nat
  logLevel : Log.Level
  one_le_limit : 1 ≤ historyLimit
  limit_le_max : historyLimit ≤ maxHistoryLimit
  deriving DecidableEq

namespace Settings

/-- The name of the history file, the limit and the level that hold when none is given. -/
def defaultHistoryFile : String := "calculator.db"

def defaultLimit : Nat := 20

def defaultLevel : Log.Level := .warning

/-- The settings with a path, a limit and a level, refused when the limit is out of bounds. -/
def check (path : Form.Checked Path) (limit : Form.Checked Int) (level : Form.Checked Log.Level) :
    Form.Checked Settings :=
  let limit : Form.Checked { n : Nat // 1 ≤ n ∧ n ≤ maxHistoryLimit } :=
    match limit with
    | .error cs => .error cs
    | .ok n =>
      if n < 1 then .error [⟨"history_limit", .tooSmall⟩]
      else if h : 1 ≤ n.toNat ∧ n.toNat ≤ maxHistoryLimit then .ok ⟨n.toNat, h⟩
      else .error [⟨"history_limit", .tooLarge⟩]
  match path.and (limit.and level) with
  | .ok (path, n, level) => .ok ⟨path, n.1, level, n.2.1, n.2.2⟩
  | .error cs => .error cs

def readPath : Form.Reader Path
  | .text s => .ok (Path.ofString s)
  | _ => .error .notPath

def ofFields (fields : Form.Fields) : Form.Checked Settings :=
  check (Form.optional fields "db_path" (Path.ofString defaultHistoryFile) readPath)
    (Form.optional fields "history_limit" defaultLimit Form.readWhole)
    (Form.optional fields "log_level" defaultLevel (Form.readLiteral Log.Level.ofName?))

end Settings

end Reckoner
