import Reckoner.Batch.Source
import Reckoner.Session.Basic

/-! Running a batch: every expression of a source is evaluated in turn, the accepted ones are stored in
the history, and a results file beside the source gets one line for each. -/

namespace Reckoner

inductive BatchFault where
  | noName (source : Path)
  | source (fault : SourceFault)
  | results (fault : FileFault)
  | history (fault : HistoryFault)
  deriving DecidableEq, Repr

namespace BatchFault

def faultClass : BatchFault → FaultClass
  | noName _ => .value
  | source fault => fault.faultClass
  | results fault => fault.faultClass
  | history fault => fault.faultClass

def message : BatchFault → String
  | noName p => "PosixPath(" ++ Text.quoted p.text ++ ") has an empty name"
  | source fault => fault.message
  | results fault => fault.message
  | history fault => fault.message

end BatchFault

namespace Batch

/-- The name of the results file: the points of the extensions become underscores. -/
def resultsName (p : Path) : String :=
  let extensions := (p.extensions.map String.toList).flatten
  let stem := p.name.toList.take (p.name.toList.length - extensions.length)
  String.ofList (stem ++ extensions.map fun c => if c = '.' then '_' else c) ++ "_results.txt"

/-- The results file of a source, beside it; a path without a name has none. -/
def resultsPath (p : Path) : Except BatchFault Path :=
  if p.name = "" then .error (.noName p) else .ok (p.withName (resultsName p))

def acceptedLine (expression result : String) : String :=
  expression ++ " = " ++ result ++ "\n"

def refusedLine (expression : String) (e : CalculationError) : String :=
  expression ++ " -> ERROR: " ++ e.message ++ "\n"

def writeResults (d : Desk) (results : Path) (text : String) : Desk × Except BatchFault Unit :=
  match d.world.files.write results (.plain (Text.utf8Encode text.toList)) with
  | .ok files => ({ d with world.files := files }, .ok ())
  | .error fault => (d, .error (.results fault))

/-- Evaluates one expression: the desk afterwards, and the line for the results file. -/
def evaluateLine (d : Desk) (expression : String) : Desk × Except BatchFault String :=
  match Expression.evaluate expression with
  | .error e => (d, .ok (refusedLine expression e))
  | .ok evaluation =>
    match d.calculate (some expression) with
    | (d, .ok _) => (d, .ok (acceptedLine expression evaluation.text))
    | (d, .error fault) => (d, .error (.history fault))

/-- Evaluates expressions and adds their lines to the text that the results file holds already. -/
def evaluateAll (d : Desk) (results : Path) (text : String) :
    List String → Desk × Except BatchFault Unit
  | [] => (d, .ok ())
  | expression :: rest =>
    match evaluateLine d expression with
    | (d, .error fault) => (d, .error fault)
    | (d, .ok line) =>
      match writeResults d results (text ++ line) with
      | (d, .error fault) => (d, .error fault)
      | (d, .ok ()) => evaluateAll d results (text ++ line) rest

/-- Runs a batch; the path of its results file. Nothing is written before the source is read. -/
def run [FileFormats] (d : Desk) (source : Path) : Desk × Except BatchFault Path :=
  match resultsPath source with
  | .error fault => (d, .error fault)
  | .ok results =>
    match readExpressions d.world.files source with
    | .error fault => (d, .error (.source fault))
    | .ok expressions =>
      let d := d.log .info
        ("📄 Evaluating " ++ toString expressions.length ++ " expression(s) from " ++ source.text)
      match writeResults d results "" with
      | (d, .error fault) => (d, .error fault)
      | (d, .ok ()) =>
        match evaluateAll d results "" expressions with
        | (d, .error fault) => (d, .error fault)
        | (d, .ok ()) => (d.log .info ("📄✅ Results written to " ++ results.text), .ok results)

end Batch

end Reckoner
