import Reckoner.Arguments.Invocation
import Reckoner.Batch.Results

/-! Running the calculator: arguments and a file tree give an exit code, what is printed, what is
logged, and the files afterwards. -/

namespace Reckoner

inductive RunFault where
  | history (fault : HistoryFault)
  | batch (fault : BatchFault)
  deriving DecidableEq, Repr

namespace RunFault

def faultClass : RunFault → FaultClass
  | history fault => fault.faultClass
  | batch fault => fault.faultClass

def message : RunFault → String
  | history fault => fault.message
  | batch fault => fault.message

/-- Whether a fault is told to the user; any other is left to the caller. -/
def isReported (fault : RunFault) : Bool :=
  fault.faultClass.isHandledBy [.value, .storage, .system]

end RunFault

/-- The end of a run: the exit code, or the fault that it leaves to the caller; what was printed; and
the world. -/
structure Outcome where
  exit : Except RunFault Nat
  output : String
  world : World

namespace Outcome

def ok (world : World) (output : String) : Outcome := ⟨.ok 0, output, world⟩

def ofFault (world : World) (fault : RunFault) : Outcome :=
  if fault.isReported then
    ⟨.ok 2, "error: " ++ fault.message ++ "\n", world.log .error ("❌ " ++ fault.message)⟩
  else ⟨.error fault, "", world⟩

end Outcome

namespace Run

/-- Steps, each on a line of its own, numbered from one. -/
def numberedSteps (steps : List String) : String :=
  String.join (steps.zipIdx.map fun (step, i) => "  " ++ toString (i + 1) ++ ". " ++ step ++ "\n")

/-- What is printed of a calculation: the result, and the steps below it. -/
def screenText (s : Session) : String :=
  s.result ++ "\n" ++ numberedSteps s.steps

/-- The end of a calculation: one that shows the error text exits with one. -/
def concludeCalculation : Desk × Except HistoryFault (Option Evaluation) → Outcome
  | (d, .error fault) => .ofFault d.world (.history fault)
  | (d, .ok _) =>
    ⟨.ok (if d.session.result = Session.errorText then 1 else 0), screenText d.session, d.world⟩

def historyText (records : List Record) : String :=
  if records.isEmpty then "No history yet\n"
  else String.join (records.map fun r => r.input ++ " = " ++ r.result ++ "\n")

def command [MathLibrary] [FileFormats] (w : World) (settings : Settings) : Command → Outcome
  | .evaluate expression =>
    concludeCalculation (Desk.calculate ⟨.new settings, w⟩ (some expression))
  | .apply function operand =>
    concludeCalculation
      (Desk.applyFunction ⟨{ Session.new settings with input := operand }, w⟩ function)
  | .history limit =>
    match History.recent w settings.historyPath (limit.getD settings.historyLimit) with
    | (w, .ok records) => .ok w (historyText records)
    | (w, .error fault) => .ofFault w (.history fault)
  | .clear =>
    match Desk.clearHistory ⟨.new settings, w⟩ with
    | (d, .ok count) => .ok d.world ("Cleared " ++ toString count ++ " calculation(s)\n")
    | (d, .error fault) => .ofFault d.world (.history fault)
  | .batch source =>
    match Batch.run ⟨.new settings, w⟩ source with
    | (d, .ok results) => .ok d.world (results.text ++ "\n")
    | (d, .error fault) => .ofFault d.world (.batch fault)

/-- Runs an invocation in a file tree. Of what is logged, the messages below the level of the settings
are dropped. -/
def invocation [MathLibrary] [FileFormats] (files : FileTree) (i : Invocation) : Outcome :=
  let outcome := command ⟨files, []⟩ i.settings i.command
  { outcome with world.messages := Log.atLeast i.settings.logLevel outcome.world.messages }

/-- Runs the calculator with arguments; those that it does not take change nothing. -/
def arguments [MathLibrary] [FileFormats] (files : FileTree) (args : List String) : Except Rejection Outcome :=
  match Invocation.ofArguments files args with
  | .error rejection => .error rejection
  | .ok i => .ok (invocation files i)

end Run

end Reckoner
