/-! Log messages and their levels. -/

namespace Reckoner.Log

inductive Level where
  | debug
  | info
  | warning
  | error
  | critical
  deriving DecidableEq, Repr

namespace Level

def name : Level → String
  | debug => "DEBUG"
  | info => "INFO"
  | warning => "WARNING"
  | error => "ERROR"
  | critical => "CRITICAL"

def all : List Level := [debug, info, warning, error, critical]

def ofName? (s : String) : Option Level :=
  all.find? fun level => level.name = s

def severity : Level → Nat
  | debug => 10
  | info => 20
  | warning => 30
  | error => 40
  | critical => 50

end Level

structure Message where
  level : Level
  text : String
  deriving DecidableEq, Repr

def atLeast (level : Level) (messages : List Message) : List Message :=
  messages.filter fun m => level.severity ≤ m.level.severity

end Reckoner.Log
