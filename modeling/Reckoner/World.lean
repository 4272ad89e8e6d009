import Reckoner.Files.Tree
import Reckoner.Log

/-! What commands act on: the files and the log. -/

namespace Reckoner

/-- The files, and every message logged so far, oldest first and of every level. -/
structure World where
  files : FileTree
  messages : List Log.Message
  deriving DecidableEq

namespace World

def log (w : World) (level : Log.Level) (text : String) : World :=
  { w with messages := w.messages ++ [⟨level, text⟩] }

end World

end Reckoner
