/-! Classes of faults. A clause that handles faults names classes, and it handles the faults of each of
them and of every class that derives from it. -/

namespace Reckoner

structure FaultClass where
  name : String
  /-- The names of the classes that it derives from, nearest first. -/
  bases : List String
  deriving DecidableEq, Repr

namespace FaultClass

def derive (base : FaultClass) (name : String) : FaultClass :=
  ⟨name, base.name :: base.bases⟩

def any : FaultClass := ⟨"Exception", []⟩

/-! A value that is not one to work with. -/

def value : FaultClass := any.derive "ValueError"
def unicode : FaultClass := value.derive "UnicodeError"
def decoding : FaultClass := unicode.derive "UnicodeDecodeError"

/-! A file that is not as it has to be. -/

def system : FaultClass := any.derive "OSError"
def fileMissing : FaultClass := system.derive "FileNotFoundError"
def fileExists : FaultClass := system.derive "FileExistsError"
def notDirectory : FaultClass := system.derive "NotADirectoryError"
def isDirectory : FaultClass := system.derive "IsADirectoryError"

/-! A database that cannot be used. -/

def storage : FaultClass := any.derive "sqlite3.Error"
def database : FaultClass := storage.derive "DatabaseError"
def operational : FaultClass := database.derive "OperationalError"

def arithmetic : FaultClass := any.derive "ArithmeticError"
def overflow : FaultClass := arithmetic.derive "OverflowError"
def runtime : FaultClass := any.derive "RuntimeError"
def recursion : FaultClass := runtime.derive "RecursionError"
def lookup : FaultClass := any.derive "LookupError"
def key : FaultClass := lookup.derive "KeyError"

/-- Whether a class is another or derives from it. -/
def isA (c base : FaultClass) : Bool :=
  c.name = base.name || c.bases.contains base.name

/-- Whether a clause that names some classes handles the faults of a class. -/
def isHandledBy (c : FaultClass) (clause : List FaultClass) : Bool :=
  clause.any c.isA

end FaultClass

/-- A fault of a library: its class and its message. -/
structure LibraryFault where
  faultClass : FaultClass
  message : String
  deriving DecidableEq, Repr

end Reckoner
