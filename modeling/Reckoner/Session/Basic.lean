import Reckoner.Expression.Basic
import Reckoner.Function.Basic
import Reckoner.Function.Operand
import Reckoner.History.Store
import Reckoner.Settings

/-! The state behind one calculator screen: the input being typed, the last result with its steps, and
the part of the history that is in view. What is shown is set before the history is written, so a
history that cannot be used never hides a result. -/

namespace Reckoner

structure Session where
  settings : Settings
  input : String
  result : String
  steps : List String
  /-- The records in view, newest first. -/
  history : List Record
  scientific : Bool
  deriving DecidableEq

/-- A session and the world it acts on. -/
structure Desk where
  session : Session
  world : World
  deriving DecidableEq

namespace Session

def errorText : String := "Error"

/-- The key that clears the screen. -/
def clearKey : String := "C"

def new (settings : Settings) : Session :=
  ⟨settings, "", "", [], [], false⟩

/-- Presses a key: the clear key empties the screen, any other is added to the input. -/
def press (s : Session) (key : String) : Session :=
  if key = clearKey then { s with input := "", result := "", steps := [] }
  else { s with input := s.input ++ key }

def toggleMode (s : Session) : Session :=
  { s with scientific := !s.scientific }

def showEvaluation (s : Session) (e : Evaluation) : Session :=
  { s with result := e.text, steps := e.renderedSteps }

def showError (s : Session) : Session :=
  { s with result := errorText, steps := [] }

def remember (s : Session) (r : Record) : Session :=
  { s with history := (r :: s.history).take s.settings.historyLimit }

end Session

namespace Desk

def log (d : Desk) (level : Log.Level) (text : String) : Desk :=
  { d with world := d.world.log level text }

/-- Stores a calculation and brings it into view. A failing storage is logged and changes nothing
else; any other fault is raised. -/
def store (d : Desk) (input result : String) : Desk × Except HistoryFault Unit :=
  match History.insert d.world d.session.settings.historyPath input result with
  | (world, .ok record) =>
    let d : Desk := ⟨d.session.remember record, world⟩
    (d.log .info ("🧮✅ " ++ input ++ " = " ++ result), .ok ())
  | (world, .error fault) =>
    let d := { d with world }
    if fault.isStorage then
      (d.log .error ("💾❌ Could not store " ++ Text.quoted input ++ ": " ++ fault.message), .ok ())
    else (d, .error fault)

/-- Shows the outcome of a calculation and stores it when it was not refused. -/
def conclude (d : Desk) (input : String) :
    Except CalculationError Evaluation → Desk × Except HistoryFault (Option Evaluation)
  | .error e =>
    let d := d.log .warning ("🧮❌ " ++ e.kind ++ ": " ++ e.message)
    ({ d with session := d.session.showError }, .ok none)
  | .ok evaluation =>
    match { d with session := d.session.showEvaluation evaluation }.store input evaluation.text with
    | (d, .ok ()) => (d, .ok (some evaluation))
    | (d, .error fault) => (d, .error fault)

/-- Evaluates the input, or an expression that takes its place. -/
def calculate (d : Desk) (expression : Option String) :
    Desk × Except HistoryFault (Option Evaluation) :=
  let input := expression.getD d.session.input
  { d with session.input := input }.conclude input (Expression.evaluate input)

/-- Applies a function to the number in the input. -/
def applyFunction [MathLibrary] (d : Desk) (name : String) : Desk × Except HistoryFault (Option Evaluation) :=
  d.conclude (name ++ "(" ++ d.session.input ++ ")")
    (UnaryFunction.apply name (Operand.parse d.session.input))

def loadHistory (d : Desk) : Desk × Except HistoryFault (List Record) :=
  match History.recent d.world d.session.settings.historyPath d.session.settings.historyLimit with
  | (world, .ok records) => (⟨{ d.session with history := records }, world⟩, .ok records)
  | (world, .error fault) => ({ d with world }, .error fault)

def clearHistory (d : Desk) : Desk × Except HistoryFault Nat :=
  match History.clear d.world d.session.settings.historyPath with
  | (world, .ok count) => (⟨{ d.session with history := [] }, world⟩, .ok count)
  | (world, .error fault) => ({ d with world }, .error fault)

end Desk

end Reckoner
