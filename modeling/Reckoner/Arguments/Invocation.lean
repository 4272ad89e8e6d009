import Reckoner.Arguments.Grammar
import Reckoner.Files.Tree
import Reckoner.Settings

/-! The command line of the calculator: its options, its commands, and the checks on what they are
given. The settings are checked first and alone. -/

namespace Reckoner

inductive Command where
  | evaluate (expression : String)
  | apply (function operand : String)
  | history (limit : Option Nat)
  | clear
  | batch (source : Path)
  deriving DecidableEq, Repr

structure Invocation where
  settings : Settings
  command : Command
  deriving DecidableEq

/-- Why a list of arguments is not taken: it is refused as it is read, its values are, or whether the
source of a batch is a file cannot be told. -/
inductive Rejection where
  | arguments (refusal : Arguments.Refusal)
  | values (complaints : List Form.Complaint)
  | source (fault : FileFault)
  deriving DecidableEq, Repr

namespace Invocation

open Arguments

/-- A command whose values are not checked yet. -/
inductive CommandDraft where
  | evaluate (expression : String)
  | apply (function operand : String)
  | history (limit : Form.Value)
  | clear
  | batch (source : String)
  deriving DecidableEq

/-- The values of a command line before they are checked. -/
structure Draft where
  historyFile : Form.Value
  historyLimit : Form.Value
  verbose : Bool
  command : CommandDraft
  deriving DecidableEq

/-- The values that hold when nothing is given; the command is given always. -/
def Draft.initial : Draft :=
  ⟨.text Settings.defaultHistoryFile, .whole Settings.defaultLimit, false, .clear⟩

def program : String := "stepwise-calculator"

/-- The value of an option of text; an option without a value has one that no field takes. -/
def textValue : Option String → Form.Value
  | some arg => .text arg
  | none => .compound

def readWhole : Option String → Except String Form.Value
  | none => .ok .compound
  | some arg =>
    match Text.wholeNumber? arg with
    | some n => .ok (.whole n)
    | none => .error ("invalid int value: " ++ Text.quoted arg)

def helpOption {σ : Type} : OptionRule σ := ⟨["-h", "--help"], .help⟩

def evaluateGrammar : Grammar String where
  program := program ++ " eval"
  options := [helpOption]
  operands := [.one "expression" fun _ e => e]

def applyGrammar : Grammar (String × String) where
  program := program ++ " fn"
  options := [helpOption]
  operands :=
    [.one "function" fun s f => (f, s.2), .optional fun s operand => (s.1, operand.getD "")]

def historyGrammar : Grammar Form.Value where
  program := program ++ " history"
  options := [helpOption, ⟨["--limit"], .value fun _ arg => readWhole arg⟩]
  operands := []

def clearGrammar : Grammar Unit where
  program := program ++ " clear"
  options := [helpOption]
  operands := []

def batchGrammar : Grammar String where
  program := program ++ " batch"
  options := [helpOption]
  operands := [.one "file_path" fun _ source => source]

def readBy {σ : Type} (g : Grammar σ) (s : σ) (draft : σ → CommandDraft) (args : List String) :
    Except Refusal (CommandDraft × List String) :=
  (g.read s args).map fun (s, unrecognised) => (draft s, unrecognised)

def commands : List (String × (List String → Except Refusal (CommandDraft × List String))) :=
  [ ("eval", readBy evaluateGrammar "" .evaluate),
    ("fn", readBy applyGrammar ("", "") fun s => .apply s.1 s.2),
    ("history", readBy historyGrammar .null .history),
    ("clear", readBy clearGrammar () fun _ => .clear),
    ("batch", readBy batchGrammar "" .batch) ]

def readCommand (draft : Draft) (name : String) (args : List String) :
    Except Refusal (Draft × List String) :=
  match commands.find? fun c => c.1 = name with
  | some (_, read) => (read args).map fun (command, unrecognised) => ({ draft with command }, unrecognised)
  | none =>
    .error (.usage program ("argument command: invalid choice: " ++ Text.quoted name ++
      " (choose from " ++ ", ".intercalate (commands.map fun c => Text.quoted c.1) ++ ")"))

def historyFileOption : OptionRule Draft :=
  ⟨["--db"], .value fun draft arg => .ok { draft with historyFile := textValue arg }⟩

def historyLimitOption : OptionRule Draft :=
  ⟨["--history-limit"], .value fun draft arg =>
    (readWhole arg).map fun n => { draft with historyLimit := n }⟩

def verboseOption : OptionRule Draft :=
  ⟨["-v", "--verbose"], .flag fun draft => { draft with verbose := true }⟩

def grammar : Grammar Draft where
  program := program
  options := [helpOption, historyFileOption, historyLimitOption, verboseOption]
  operands := [.rest "command" readCommand]

/-- Reads all arguments; each of them has to be recognised. -/
def readDraft (args : List String) : Except Refusal Draft :=
  match grammar.read Draft.initial args with
  | .error r => .error r
  | .ok (draft, []) => .ok draft
  | .ok (_, unrecognised) =>
    .error (.usage program ("unrecognized arguments: " ++ " ".intercalate unrecognised))

/-- Checks the values of a command; the source of a batch has to be a file. -/
def checkCommand (files : FileTree) : CommandDraft → Except Rejection Command
  | .evaluate e => .ok (.evaluate e)
  | .apply f x => .ok (.apply f x)
  | .history .null => .ok (.history none)
  | .history value =>
    match Form.readWhole value with
    | .error problem => .error (.values [⟨"limit", problem⟩])
    | .ok n =>
      if n < 1 then .error (.values [⟨"limit", .tooSmall⟩]) else .ok (.history (some n.toNat))
  | .clear => .ok .clear
  | .batch source =>
    let path := Path.ofString source
    if path.hasNull then .error (.values [⟨"file_path", .notFile⟩])
    else
      match files.isFile path with
      | .error fault => .error (.source fault)
      | .ok true => .ok (.batch path)
      | .ok false => .error (.values [⟨"file_path", .notFile⟩])

def checkSettings (draft : Draft) : Form.Checked Settings :=
  let level : Log.Level := if draft.verbose then .info else .warning
  Settings.ofFields
    [ ("db_path", draft.historyFile), ("history_limit", draft.historyLimit),
      ("log_level", .text level.name) ]

def ofDraft (files : FileTree) (draft : Draft) : Except Rejection Invocation :=
  match checkSettings draft with
  | .error complaints => .error (.values complaints)
  | .ok settings => (checkCommand files draft.command).map (⟨settings, ·⟩)

def ofArguments (files : FileTree) (args : List String) : Except Rejection Invocation :=
  match readDraft args with
  | .error refusal => .error (.arguments refusal)
  | .ok draft => ofDraft files draft

end Invocation

end Reckoner
