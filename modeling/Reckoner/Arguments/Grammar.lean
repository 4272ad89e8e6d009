import Reckoner.Text.DecimalDigit
import Reckoner.Text.Quoted

/-! Command lines: which options and operands a program takes, and how a list of arguments is read by
them. An argument that begins with a dash is an option unless it is a dash alone, a negative number or
holds a space; after the first argument of two dashes all are operands. Names of options may be
shortened, and a value may be attached. What is read is a state that every option and operand
changes. -/

namespace Reckoner.Arguments

/-- Why a list of arguments is not taken: help was asked for, or it breaks the rules of a program. -/
inductive Refusal where
  | help
  | usage (program message : String)
  deriving DecidableEq, Repr

def usageLine (program message : String) : String :=
  program ++ ": error: " ++ message

/-- What an option does. A value of two dashes counts as none. -/
inductive OptionAction (σ : Type) where
  | help
  | flag (set : σ → σ)
  | value (store : σ → Option String → Except String σ)

/-- An option: its names, each with its dashes, and what it does. -/
structure OptionRule (σ : Type) where
  names : List String
  action : OptionAction σ

/-- An operand: one that has to be given, one that may be left out, or one that has to be given and
takes all further arguments with it. The last kind tells which of those it did not recognise. -/
inductive OperandRule (σ : Type) where
  | one (name : String) (store : σ → String → σ)
  | optional (store : σ → Option String → σ)
  | rest (name : String) (store : σ → String → List String → Except Refusal (σ × List String))

/-- What a program takes. Operands that may be left out stand last. -/
structure Grammar (σ : Type) where
  program : String
  options : List (OptionRule σ)
  operands : List (OperandRule σ)

/-- An option as it was given, with the text attached to its name. -/
structure OptionUse (σ : Type) where
  rule : OptionRule σ
  name : String
  attached : Option (List Char)

/-- Whether the name that an option was given by has one dash. -/
def OptionUse.isShort {σ : Type} (use : OptionUse σ) : Bool :=
  use.name.toList.take 2 != ['-', '-']

/-- An argument, classified; an option that the program does not have has no use. -/
inductive Piece (σ : Type) where
  | operand (text : String)
  | separator
  | option (text : String) (use : Option (OptionUse σ))

namespace Piece

variable {σ : Type}

def text : Piece σ → String
  | operand t => t
  | separator => "--"
  | option t _ => t

def isOption : Piece σ → Bool
  | option .. => true
  | _ => false

def isSeparator : Piece σ → Bool
  | separator => true
  | _ => false

end Piece

namespace OptionRule

variable {σ : Type}

def takesValue (r : OptionRule σ) : Bool :=
  match r.action with
  | .value _ => true
  | _ => false

end OptionRule

namespace Grammar

variable {σ : Type}

def refuse {α : Type} (g : Grammar σ) (message : String) : Except Refusal α :=
  .error (.usage g.program message)

def refuseOption {α : Type} (g : Grammar σ) (rule : OptionRule σ) (message : String) :
    Except Refusal α :=
  g.refuse ("argument " ++ "/".intercalate rule.names ++ ": " ++ message)

/-! ### Classification -/

def optionNames (g : Grammar σ) : List (String × OptionRule σ) :=
  g.options.flatMap fun rule => rule.names.map (·, rule)

def rule? (g : Grammar σ) (name : String) : Option (OptionRule σ) :=
  (g.optionNames.find? fun entry => entry.1 = name).map Prod.snd

/-- Splits a text at its first equals sign. -/
def splitEquals (cs : List Char) : List Char × Option (List Char) :=
  match cs.dropWhile (· != '=') with
  | [] => (cs, none)
  | _ :: value => (cs.takeWhile (· != '='), some value)

/-- The options that an argument with two dashes may be short for. -/
def longCandidates (g : Grammar σ) (cs : List Char) : List (OptionUse σ) :=
  let (start, value) := splitEquals cs
  (g.optionNames.filter fun entry => start.isPrefixOf entry.1.toList).map fun (name, rule) =>
    ⟨rule, name, value⟩

/-- The options that an argument with one dash may be: the one of its first letter, with the other
letters attached, and those whose names it begins. -/
def shortCandidates (g : Grammar σ) (cs : List Char) : List (OptionUse σ) :=
  g.optionNames.filterMap fun (name, rule) =>
    if name.toList = cs.take 2 then some ⟨rule, name, some (cs.drop 2)⟩
    else if cs.isPrefixOf name.toList then some ⟨rule, name, none⟩
    else none

/-- Whether the text after a dash makes a negative number: digits, or digits if any, a point and
digits. A line feed at the end does not count. -/
def isNegated (cs : List Char) : Bool :=
  let body := if cs.getLast? = some '\n' then cs.dropLast else cs
  match body.dropWhile Text.isDigit with
  | [] => !body.isEmpty
  | '.' :: fraction => !fraction.isEmpty && fraction.all Text.isDigit
  | _ => false

/-- Classifies an argument that is no name of an option and has no name before an equals sign. -/
def classifyOther (g : Grammar σ) (arg : String) (cs : List Char) : Except Refusal (Piece σ) :=
  let candidates :=
    if cs.take 2 = ['-', '-'] then g.longCandidates cs else g.shortCandidates cs
  match candidates with
  | [use] => .ok (.option arg (some use))
  | [] =>
    if isNegated (cs.drop 1) || cs.contains ' ' then .ok (.operand arg) else .ok (.option arg none)
  | _ =>
    g.refuse ("ambiguous option: " ++ arg ++ " could match " ++
      ", ".intercalate (candidates.map OptionUse.name))

/-- Classifies an argument before the separator. -/
def classify (g : Grammar σ) (arg : String) : Except Refusal (Piece σ) :=
  let cs := arg.toList
  if cs.head? ≠ some '-' then .ok (.operand arg)
  else
    match g.rule? arg with
    | some rule => .ok (.option arg (some ⟨rule, arg, none⟩))
    | none =>
      if cs.length = 1 then .ok (.operand arg)
      else
        let (start, value) := splitEquals cs
        match g.rule? (String.ofList start), value with
        | some rule, some value =>
          .ok (.option arg (some ⟨rule, String.ofList start, some value⟩))
        | _, _ => g.classifyOther arg cs

def classifyAll (g : Grammar σ) : List String → Except Refusal (List (Piece σ))
  | [] => .ok []
  | arg :: args =>
    if arg = "--" then .ok (.separator :: args.map .operand)
    else
      match g.classify arg with
      | .error r => .error r
      | .ok piece => (g.classifyAll args).map (piece :: ·)

/-! ### Options -/

/-- How the letters attached to an option end: with an option to which nothing is attached, or with one
that takes the rest as its value. -/
inductive ChainEnd (σ : Type) where
  | bare (rule : OptionRule σ)
  | valued (rule : OptionRule σ) (value : String)

/-- Refuses the text attached to an option that takes none. -/
def refuseAttached {α : Type} (g : Grammar σ) (rule : OptionRule σ) (text : List Char) :
    Except Refusal α :=
  g.refuseOption rule ("ignored explicit argument " ++ Text.quoted (String.ofList text))

/-- Reads the letters attached to an option of one dash: after a flag each letter has to be an option
itself. The flags, in order, and how the letters end. -/
def letters (g : Grammar σ) (rule : OptionRule σ) :
    List Char → Except Refusal (List (OptionRule σ) × ChainEnd σ)
  | [] => .ok ([], .bare rule)
  | c :: rest =>
    if rule.takesValue then .ok ([], .valued rule (String.ofList (c :: rest)))
    else
      match g.rule? (String.ofList ['-', c]) with
      | none => g.refuseAttached rule (c :: rest)
      | some next => (g.letters next rest).map fun (flags, last) => (rule :: flags, last)

/-- Reads the text attached to an option. -/
def chain (g : Grammar σ) (use : OptionUse σ) : Except Refusal (List (OptionRule σ) × ChainEnd σ) :=
  match use.attached with
  | none => .ok ([], .bare use.rule)
  | some text =>
    if use.rule.takesValue then .ok ([], .valued use.rule (String.ofList text))
    else if use.isShort && !text.isEmpty then g.letters use.rule text
    else g.refuseAttached use.rule text

def actPlain (s : σ) (rule : OptionRule σ) : Except Refusal σ :=
  match rule.action with
  | .help => .error .help
  | .flag set => .ok (set s)
  | .value _ => .ok s

def actAll (s : σ) : List (OptionRule σ) → Except Refusal σ
  | [] => .ok s
  | rule :: rules =>
    match actPlain s rule with
    | .error r => .error r
    | .ok s => actAll s rules

def actValue (g : Grammar σ) (s : σ) (rule : OptionRule σ) (value : String) : Except Refusal σ :=
  match rule.action with
  | .value store =>
    match store s (if value = "--" then none else some value) with
    | .ok s => .ok s
    | .error message => g.refuseOption rule message
  | _ => .ok s

/-- Acts on an option as it was given, before other pieces: the state afterwards, and whether the first
of the pieces was its value. -/
def actOption (g : Grammar σ) (s : σ) (use : OptionUse σ) (pieces : List (Piece σ)) :
    Except Refusal (σ × Bool) := do
  let (flags, last) ← g.chain use
  match last with
  | .valued rule value => return (← g.actValue (← actAll s flags) rule value, false)
  | .bare rule =>
    if rule.takesValue then
      match pieces with
      | .operand value :: _ => return (← g.actValue (← actAll s flags) rule value, true)
      | _ => g.refuseOption rule "expected one argument"
    else return (← actPlain (← actAll s flags) rule, false)

/-! ### Operands -/

/-- The texts of pieces without the first that is two dashes. -/
def withoutSeparator (pieces : List (Piece σ)) : List String :=
  (pieces.map Piece.text).erase "--"

/-- The pieces of one operand at the beginning, with the separators around it, and those left. -/
def takeOne (pieces : List (Piece σ)) : Option (List (Piece σ) × List (Piece σ)) :=
  let before := pieces.takeWhile Piece.isSeparator
  match pieces.dropWhile Piece.isSeparator with
  | .operand t :: rest =>
    some (before ++ .operand t :: rest.takeWhile Piece.isSeparator, rest.dropWhile Piece.isSeparator)
  | _ => none

/-- Reads operands from the beginning of the pieces, by as many of the rules as there are operands
for: the state afterwards, the rules and the pieces left, and what was not recognised. -/
def takeOperands (g : Grammar σ) (s : σ) (pieces : List (Piece σ)) :
    List (OperandRule σ) →
      Except Refusal (σ × List (OperandRule σ) × List (Piece σ) × List String)
  | [] => .ok (s, [], pieces, [])
  | .one name store :: rules =>
    match takeOne pieces with
    | none => .ok (s, .one name store :: rules, pieces, [])
    | some (taken, pieces) =>
      g.takeOperands (store s ((withoutSeparator taken).headD "")) pieces rules
  | .optional store :: rules =>
    match takeOne pieces with
    | none =>
      g.takeOperands (store s none) (pieces.dropWhile Piece.isSeparator) rules
    | some (taken, pieces) => g.takeOperands (store s (withoutSeparator taken).head?) pieces rules
  | .rest name store :: rules =>
    match takeOne pieces with
    | none => .ok (s, .rest name store :: rules, pieces, [])
    | some _ =>
      match pieces.map Piece.text with
      | [] => .ok (s, .rest name store :: rules, pieces, [])
      | first :: others =>
        match store s first others with
        | .error r => .error r
        | .ok (s, unrecognised) => .ok (s, rules, [], unrecognised)

/-- The names of the operands that have to be given. -/
def requiredNames : List (OperandRule σ) → List String
  | [] => []
  | .one name _ :: rules => name :: requiredNames rules
  | .optional _ :: rules => requiredNames rules
  | .rest name _ :: rules => name :: requiredNames rules

/-! ### Reading -/

/-- Reads classified pieces by the operand rules that are left: the state afterwards and what was not
recognised. A run of pieces without an option is read by the operand rules as far as they go. -/
def readPieces (g : Grammar σ) (s : σ) (rules : List (OperandRule σ)) (unrecognised : List String)
    (pieces : List (Piece σ)) : Except Refusal (σ × List String) :=
  match pieces with
  | [] =>
    match requiredNames rules with
    | [] => .ok (s, unrecognised)
    | names => g.refuse ("the following arguments are required: " ++ ", ".intercalate names)
  | .option text none :: rest => g.readPieces s rules (unrecognised ++ [text]) rest
  | .option _ (some use) :: rest =>
    match g.actOption s use rest with
    | .error r => .error r
    | .ok (s, tookValue) =>
      g.readPieces s rules unrecognised (if tookValue then rest.drop 1 else rest)
  | piece :: rest =>
    match g.takeOperands s (piece :: rest) rules with
    | .error r => .error r
    | .ok (s, rules, left, more) =>
      if left.isEmpty then g.readPieces s rules (unrecognised ++ more) []
      else
        g.readPieces s rules
          (unrecognised ++ more ++ (left.takeWhile (!·.isOption)).map Piece.text)
          (rest.dropWhile (!·.isOption))
termination_by pieces.length
decreasing_by
  · simp
  · simp only [List.length_cons]
    split
    · simp only [List.length_drop]; omega
    · omega
  · simp
  · simp only [List.length_cons]
    exact Nat.lt_succ_of_le (List.dropWhile_sublist _).length_le

/-- Reads arguments from a state on: the state afterwards and the arguments not recognised. -/
def read (g : Grammar σ) (s : σ) (args : List String) : Except Refusal (σ × List String) :=
  match g.classifyAll args with
  | .error r => .error r
  | .ok pieces => g.readPieces s g.operands [] pieces

end Grammar

end Reckoner.Arguments
