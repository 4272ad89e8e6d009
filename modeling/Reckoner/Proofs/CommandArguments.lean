import Mathlib.Data.List.Basic
import Reckoner.Arguments.Invocation

/-! Reading the arguments of a run in the form that no value can disturb: options with their values
attached, the name of a command, two dashes, and operands. Each option is classified by its name up to
the equals sign, whatever its value holds, and behind the two dashes nothing is an option; so the
options and the command are read apart from each other (`readDraft_append`). -/

namespace Reckoner
namespace Invocation

open Arguments Grammar

/-- An option before the command; a value is attached to its name. -/
inductive GlobalOption where
  | historyFile (value : String)
  | historyLimit (value : String)
  | verbose
  deriving DecidableEq, Repr

namespace GlobalOption

def text : GlobalOption → String
  | historyFile value => "--db=" ++ value
  | historyLimit value => "--history-limit=" ++ value
  | verbose => "-v"

/-- An option as the grammar sees it. -/
def use : GlobalOption → OptionUse Draft
  | historyFile value => ⟨historyFileOption, "--db", some value.toList⟩
  | historyLimit value => ⟨historyLimitOption, "--history-limit", some value.toList⟩
  | verbose => ⟨verboseOption, "-v", none⟩

/-- What an option changes in a draft. -/
def act (draft : Draft) : GlobalOption → Except Refusal Draft
  | historyFile value => grammar.actValue draft historyFileOption value
  | historyLimit value => grammar.actValue draft historyLimitOption value
  | verbose => .ok { draft with verbose := true }

/-- What options change, one after another. -/
def actAll (draft : Draft) : List GlobalOption → Except Refusal Draft
  | [] => .ok draft
  | o :: os =>
    match act draft o with
    | .error r => .error r
    | .ok draft => actAll draft os

end GlobalOption

theorem splitEquals_append {name value : List Char} (h : '=' ∉ name) :
    splitEquals (name ++ '=' :: value) = (name, some value) := by
  have hpass : ∀ c ∈ name, (c != '=') = true := by
    intro c hc
    rw [bne_iff_ne]
    rintro rfl
    exact h hc
  have hstop : ('=' != '=') = false := rfl
  rw [splitEquals, List.dropWhile_append_of_pos hpass, List.takeWhile_append_of_pos hpass,
    List.dropWhile_cons_of_neg (by decide), List.takeWhile_cons_of_neg (by decide)]
  simp

/-- An argument with an equals sign is no name of an option, if none of the names has one. -/
theorem rule?_eq_none_of_equals {σ : Type} {g : Grammar σ}
    (hnames : ∀ entry ∈ g.optionNames, '=' ∉ entry.1.toList) {arg : String} (h : '=' ∈ arg.toList) :
    g.rule? arg = none := by
  rw [rule?, List.find?_eq_none.2]
  · rfl
  · intro entry hentry heq
    rw [decide_eq_true_eq] at heq
    rw [← heq] at h
    exact hnames entry hentry h

theorem equals_not_mem_names : ∀ entry ∈ grammar.optionNames, '=' ∉ entry.1.toList := by
  change ∀ entry ∈ [("-h", helpOption), ("--help", helpOption), ("--db", historyFileOption),
    ("--history-limit", historyLimitOption), ("-v", verboseOption), ("--verbose", verboseOption)], _
  simp only [List.forall_mem_cons]
  decide

theorem rule?_names : grammar.rule? "--db" = some historyFileOption ∧
    grammar.rule? "--history-limit" = some historyLimitOption :=
  ⟨rfl, rfl⟩

/-- An argument with a value attached to the whole name of an option is that option, whatever the value
holds. -/
theorem classify_attached {σ : Type} {g : Grammar σ}
    (hnames : ∀ entry ∈ g.optionNames, '=' ∉ entry.1.toList) {rule : OptionRule σ}
    {name value : String} (hdash : name.toList.head? = some '-') (hname : '=' ∉ name.toList)
    (hrule : g.rule? name = some rule) :
    g.classify (name ++ "=" ++ value) =
      .ok (.option (name ++ "=" ++ value) (some ⟨rule, name, some value.toList⟩)) := by
  have hlist : (name ++ "=" ++ value).toList = name.toList ++ '=' :: value.toList := by
    rw [String.toList_append, String.toList_append, List.append_assoc]
    rfl
  have hhead : (name ++ "=" ++ value).toList.head? = some '-' := by
    rw [hlist, List.head?_append, hdash]
    rfl
  have hnone : g.rule? (name ++ "=" ++ value) = none := by
    refine rule?_eq_none_of_equals hnames ?_
    rw [hlist]
    exact List.mem_append_right _ List.mem_cons_self
  have hlong : (name ++ "=" ++ value).toList.length ≠ 1 := by
    have hne : name.toList ≠ [] := by
      intro hnil
      rw [hnil] at hdash
      cases hdash
    have := List.length_pos_iff.2 hne
    rw [hlist, List.length_append, List.length_cons]
    omega
  rw [classify, if_neg (by rw [hhead]; exact not_not_intro rfl), hnone]
  simp only [if_neg hlong]
  rw [hlist, splitEquals_append hname]
  simp only [String.ofList_toList, hrule]

/-- What begins with a dash and can be no option of a program is an operand if it is a negative number or
holds a space, and else an option that is not recognised. -/
theorem classify_of_unmatched {σ : Type} {g : Grammar σ} {arg : String} {cs : List Char}
    (hcs : arg.toList = '-' :: cs) (hne : cs ≠ []) (hrule : g.rule? arg = none)
    (hstart : g.rule? (String.ofList (splitEquals ('-' :: cs)).1) = none)
    (hcandidates : (if ('-' :: cs).take 2 = ['-', '-'] then g.longCandidates ('-' :: cs)
      else g.shortCandidates ('-' :: cs)) = []) :
    g.classify arg =
      .ok (if isNegated cs || cs.contains ' ' then .operand arg else .option arg none) := by
  have hlong : ('-' :: cs).length ≠ 1 := by
    have := List.length_pos_iff.2 hne
    rw [List.length_cons]
    omega
  have hspace : ('-' :: cs).contains ' ' = cs.contains ' ' := by
    rw [List.contains_cons]
    rfl
  have hother : g.classifyOther arg ('-' :: cs) =
      .ok (if isNegated cs || cs.contains ' ' then .operand arg else .option arg none) := by
    rw [classifyOther, hcandidates]
    simp only [List.drop_one, List.tail_cons, hspace]
    split_ifs <;> rfl
  have hdash : ('-' :: cs).head? = some '-' := rfl
  rw [classify, hcs, if_neg (not_not_intro hdash), hrule]
  simp only [if_neg hlong, hstart, hother]

/-- A negative number is of digits and points, but for a line feed at its end. -/
theorem mem_of_isNegated {cs : List Char} (h : isNegated cs = true) {c : Char} (hc : c ∈ cs) :
    Text.isDigit c = true ∨ c = '.' ∨ c = '\n' := by
  unfold isNegated at h
  extract_lets body at h
  have hbody : c ∈ body ∨ c = '\n' := by
    by_cases hlast : cs.getLast? = some '\n'
    · rw [← List.dropLast_append_getLast? '\n' hlast, List.mem_append, List.mem_singleton] at hc
      rwa [show body = cs.dropLast from if_pos hlast]
    · rw [show body = cs from if_neg hlast]
      exact .inl hc
  clear_value body
  rcases hbody with hbody | rfl
  · rw [← List.takeWhile_append_dropWhile (p := Text.isDigit) (l := body), List.mem_append] at hbody
    rcases hbody with hwhole | hrest
    · exact .inl (List.all_eq_true.1 List.all_takeWhile c hwhole)
    · split at h
      next hnil =>
        rw [hnil] at hrest
        cases hrest
      next fraction hpoint =>
        rw [hpoint] at hrest
        rcases List.mem_cons.1 hrest with rfl | hfraction
        · exact .inr (.inl rfl)
        · exact .inl (List.all_eq_true.1 (Bool.and_eq_true_iff.1 h).2 c hfraction)
      next => cases h
  · exact .inr (.inr rfl)

theorem GlobalOption.classify_text (o : GlobalOption) :
    grammar.classify o.text = .ok (.option o.text (some o.use)) := by
  have hfile : "--db=" = "--db" ++ "=" := by decide
  have hlimit : "--history-limit=" = "--history-limit" ++ "=" := by decide
  cases o with
  | historyFile value =>
      show grammar.classify ("--db=" ++ value) =
        .ok (.option ("--db=" ++ value) (some ⟨historyFileOption, "--db", some value.toList⟩))
      rw [hfile]
      exact classify_attached equals_not_mem_names (by decide) (by decide) rule?_names.1
  | historyLimit value =>
      show grammar.classify ("--history-limit=" ++ value) =
        .ok (.option ("--history-limit=" ++ value)
          (some ⟨historyLimitOption, "--history-limit", some value.toList⟩))
      rw [hlimit]
      exact classify_attached equals_not_mem_names (by decide) (by decide) rule?_names.2
  | verbose => rfl

theorem GlobalOption.text_ne_separator (o : GlobalOption) : o.text ≠ "--" := by
  have hlonger : ∀ start value : String, 2 < start.toList.length → start ++ value ≠ "--" := by
    intro start value hstart h
    have hlength := congrArg (fun s => s.toList.length) h
    have htwo : "--".toList.length = 2 := rfl
    simp only [String.toList_append, List.length_append, htwo] at hlength
    omega
  cases o with
  | historyFile value => exact hlonger "--db=" value (by decide)
  | historyLimit value => exact hlonger "--history-limit=" value (by decide)
  | verbose => decide

/-- A name without a dash is an operand, whatever follows it. -/
theorem classifyAll_cons {σ : Type} {g : Grammar σ} {name : String} {args : List String}
    {pieces : List (Piece σ)} (hname : name.toList.head? ≠ some '-')
    (hargs : g.classifyAll args = .ok pieces) :
    g.classifyAll (name :: args) = .ok (.operand name :: pieces) := by
  have hseparator : name ≠ "--" := by
    rintro rfl
    exact hname rfl
  rw [classifyAll, if_neg hseparator, classify, if_pos hname, hargs]
  rfl

theorem classifyAll_singleton {σ : Type} {g : Grammar σ} {arg : String} {piece : Piece σ} (harg : arg ≠ "--")
    (h : g.classify arg = .ok piece) : g.classifyAll [arg] = .ok [piece] := by
  rw [classifyAll, if_neg harg, h]
  rfl

theorem classifyAll_append {words : List String} {pieces : List (Piece Draft)}
    (hwords : grammar.classifyAll words = .ok pieces) (options : List GlobalOption) :
    grammar.classifyAll (options.map GlobalOption.text ++ words) =
      .ok (options.map (fun o => .option o.text (some o.use)) ++ pieces) := by
  induction options with
  | nil => exact hwords
  | cons o options ih =>
      rw [List.map_cons, List.cons_append, classifyAll, if_neg o.text_ne_separator,
        o.classify_text, ih]
      rfl

theorem text_of_classifyOther {σ : Type} {g : Grammar σ} {arg : String} {cs : List Char} {piece : Piece σ}
    (h : g.classifyOther arg cs = .ok piece) : piece.text = arg := by
  unfold classifyOther at h
  dsimp only at h
  split at h
  · cases h
    rfl
  · split at h
    · cases h
      rfl
    · cases h
      rfl
  · cases h

/-- A piece has the text of its argument. -/
theorem text_of_classify {σ : Type} {g : Grammar σ} {arg : String} {piece : Piece σ}
    (h : g.classify arg = .ok piece) : piece.text = arg := by
  unfold classify at h
  dsimp only at h
  split at h
  · cases h
    rfl
  · split at h
    · cases h
      rfl
    · split at h
      · cases h
        rfl
      · split at h
        · cases h
          rfl
        · exact text_of_classifyOther h

theorem map_text_of_classifyAll {σ : Type} {g : Grammar σ} {args : List String} {pieces : List (Piece σ)}
    (h : g.classifyAll args = .ok pieces) : pieces.map Piece.text = args := by
  induction args generalizing pieces with
  | nil =>
      cases h
      rfl
  | cons arg args ih =>
      rw [classifyAll] at h
      split_ifs at h with hseparator
      · cases h
        rw [hseparator, List.map_cons, List.map_map]
        simp [Piece.text, Function.comp_def]
      · cases hpiece : g.classify arg with
        | error r =>
            rw [hpiece] at h
            cases h
        | ok piece =>
            rw [hpiece] at h
            cases hrest : g.classifyAll args with
            | error r =>
                rw [hrest] at h
                cases h
            | ok rest =>
                rw [hrest] at h
                cases h
                rw [List.map_cons, text_of_classify hpiece, ih hrest]

theorem actOption_attached {σ : Type} {g : Grammar σ} (s : σ) {rule : OptionRule σ}
    (hrule : rule.takesValue = true) (name value : String) (pieces : List (Piece σ)) :
    g.actOption s ⟨rule, name, some value.toList⟩ pieces =
      (g.actValue s rule value).map fun s => (s, false) := by
  rw [actOption, chain]
  simp only [if_pos hrule, String.ofList_toList]
  change (g.actValue s rule value >>= fun s => pure (s, false)) = _
  cases g.actValue s rule value <;> rfl

theorem actOption_use (draft : Draft) (o : GlobalOption) (pieces : List (Piece Draft)) :
    grammar.actOption draft o.use pieces = (o.act draft).map fun draft => (draft, false) := by
  cases o with
  | historyFile value => exact actOption_attached draft rfl "--db" value pieces
  | historyLimit value => exact actOption_attached draft rfl "--history-limit" value pieces
  | verbose => rfl

theorem readPieces_options (options : List GlobalOption) (draft : Draft)
    (rules : List (OperandRule Draft)) (unrecognised : List String) (pieces : List (Piece Draft)) :
    grammar.readPieces draft rules unrecognised
        (options.map (fun o => .option o.text (some o.use)) ++ pieces) =
      (GlobalOption.actAll draft options).bind fun draft =>
        grammar.readPieces draft rules unrecognised pieces := by
  induction options generalizing draft with
  | nil => rfl
  | cons o options ih =>
      rw [List.map_cons, List.cons_append, readPieces, actOption_use, GlobalOption.actAll]
      cases o.act draft with
      | error r => rfl
      | ok draft => exact ih draft

theorem readPieces_nil {σ : Type} (g : Grammar σ) (s : σ) (unrecognised : List String) :
    g.readPieces s [] unrecognised [] = .ok (s, unrecognised) := by
  rw [readPieces, requiredNames]

/-- What the operand rules take whole, with no rule left over, is read by them alone. -/
theorem readPieces_of_taken {σ : Type} {g : Grammar σ} {s : σ} {rules : List (OperandRule σ)}
    {piece : Piece σ} {rest : List (Piece σ)} {taken : Except Refusal (σ × List String)}
    (hpiece : piece.isOption = false)
    (htake : g.takeOperands s (piece :: rest) rules = taken.map fun result => (result.1, [], [], result.2)) :
    g.readPieces s rules [] (piece :: rest) = taken := by
  cases piece with
  | operand text =>
      rw [readPieces, htake]
      · cases taken with
        | error r => rfl
        | ok result => exact readPieces_nil g result.1 ([] ++ result.2)
      · exact fun _ h => by cases h
      · exact fun _ _ h => by cases h
  | separator =>
      rw [readPieces, htake]
      · cases taken with
        | error r => rfl
        | ok result => exact readPieces_nil g result.1 ([] ++ result.2)
      · exact fun _ h => by cases h
      · exact fun _ _ h => by cases h
  | option text use => cases hpiece

theorem read_of_taken {σ : Type} {g : Grammar σ} {s : σ} {args : List String} {piece : Piece σ}
    {rest : List (Piece σ)} {result : σ × List String} (hclassify : g.classifyAll args = .ok (piece :: rest))
    (hpiece : piece.isOption = false)
    (htake : g.takeOperands s (piece :: rest) g.operands = .ok (result.1, [], [], result.2)) :
    g.read s args = .ok result := by
  rw [Grammar.read, hclassify]
  exact readPieces_of_taken hpiece htake

/-- A command takes all that follows it. -/
theorem readPieces_command (draft : Draft) (name : String) (pieces : List (Piece Draft)) :
    grammar.readPieces draft grammar.operands [] (.operand name :: pieces) =
      readCommand draft name (pieces.map Piece.text) := by
  have htake : ∃ taken left, takeOne (.operand name :: pieces) = some (taken, left) := ⟨_, _, rfl⟩
  obtain ⟨taken, left, htake⟩ := htake
  have hread : grammar.takeOperands draft (.operand name :: pieces) grammar.operands =
      (readCommand draft name (pieces.map Piece.text)).map fun result => (result.1, [], [], result.2) := by
    change grammar.takeOperands draft (.operand name :: pieces) [.rest "command" readCommand] = _
    rw [takeOperands, htake]
    simp only [List.map_cons, Piece.text]
    cases readCommand draft name (pieces.map Piece.text) <;> rfl
  exact readPieces_of_taken rfl hread

/-- Options and a command are read apart from each other. -/
theorem readDraft_append {name : String} {args : List String} {pieces : List (Piece Draft)}
    (hname : name.toList.head? ≠ some '-') (hargs : grammar.classifyAll args = .ok pieces)
    (options : List GlobalOption) :
    readDraft (options.map GlobalOption.text ++ name :: args) =
      (GlobalOption.actAll Draft.initial options).bind fun draft =>
        match readCommand draft name args with
        | .error r => .error r
        | .ok (draft, []) => .ok draft
        | .ok (_, unrecognised) =>
          .error (.usage program ("unrecognized arguments: " ++ " ".intercalate unrecognised)) := by
  rw [readDraft, Grammar.read, classifyAll_append (classifyAll_cons hname hargs)]
  simp only [readPieces_options, readPieces_command, map_text_of_classifyAll hargs]
  cases GlobalOption.actAll Draft.initial options <;> rfl

theorem erase_separator {text : String} (h : text ≠ "--") : [text].erase "--" = [text] :=
  List.erase_of_not_mem (by simpa using h.symm)

/-- Behind two dashes a program of one operand takes any text as that operand. -/
theorem read_one {σ : Type} {g : Grammar σ} {name : String} {store : σ → String → σ}
    (hoperands : g.operands = [.one name store]) (s : σ) (arg : String) :
    g.read s ["--", arg] = .ok (store s arg, []) := by
  have herase : ["--", arg].erase "--" = [arg] := List.erase_cons_head "--" [arg]
  have htake : g.takeOperands s [.separator, .operand arg] g.operands = .ok (store s arg, [], [], []) := by
    rw [hoperands]
    change g.takeOperands (store s ((["--", arg].erase "--").headD "")) [] [] = _
    rw [herase]
    rfl
  exact read_of_taken rfl rfl htake

theorem readCommand_evaluate (draft : Draft) (expression : String) :
    readCommand draft "eval" ["--", expression] =
      .ok ({ draft with command := .evaluate expression }, []) := by
  change ((readBy evaluateGrammar "" .evaluate ["--", expression]).map _) = _
  rw [readBy, read_one rfl]
  rfl

/-- Options, the name of a command, two dashes and operands. -/
def commandArguments (options : List GlobalOption) (name : String) (operands : List String) :
    List String :=
  options.map GlobalOption.text ++ name :: "--" :: operands

/-- The settings that options give; what is not given has its default. -/
def settingsOf (options : List GlobalOption) : Except Rejection Settings :=
  match GlobalOption.actAll Draft.initial options with
  | .error refusal => .error (.arguments refusal)
  | .ok draft =>
    match checkSettings draft with
    | .error complaints => .error (.values complaints)
    | .ok settings => .ok settings

theorem ofArguments_words {name : String} {args : List String} {pieces : List (Piece Draft)}
    {command : CommandDraft} (hname : name.toList.head? ≠ some '-')
    (hargs : grammar.classifyAll args = .ok pieces)
    (hread : ∀ draft, readCommand draft name args = .ok ({ draft with command }, []))
    (files : FileTree) (options : List GlobalOption) :
    ofArguments files (options.map GlobalOption.text ++ name :: args) =
      (settingsOf options).bind fun settings =>
        (checkCommand files command).map fun command => ⟨settings, command⟩ := by
  rw [ofArguments, readDraft_append hname hargs, settingsOf]
  cases GlobalOption.actAll Draft.initial options with
  | error r => rfl
  | ok draft =>
      have hsettings : checkSettings { draft with command } = checkSettings draft := rfl
      simp only [Except.bind, hread, ofDraft, hsettings]
      cases checkSettings draft <;> rfl

theorem ofArguments_command {name : String} {operands : List String} {command : CommandDraft}
    (hname : name.toList.head? ≠ some '-')
    (hread : ∀ draft, readCommand draft name ("--" :: operands) = .ok ({ draft with command }, []))
    (files : FileTree) (options : List GlobalOption) :
    ofArguments files (commandArguments options name operands) =
      (settingsOf options).bind fun settings =>
        (checkCommand files command).map fun command => ⟨settings, command⟩ :=
  ofArguments_words hname rfl hread files options

theorem ofArguments_evaluate (files : FileTree) (options : List GlobalOption) (expression : String) :
    ofArguments files (commandArguments options "eval" [expression]) =
      (settingsOf options).map fun settings => ⟨settings, .evaluate expression⟩ := by
  rw [ofArguments_command (by decide) fun draft => readCommand_evaluate draft expression]
  cases settingsOf options <;> rfl

end Invocation
end Reckoner
