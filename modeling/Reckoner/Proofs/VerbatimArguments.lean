import Reckoner.Proofs.CommandArguments
import Reckoner.Proofs.DisplayReading

/-! Arguments that are taken as they are. The options of a run may stand in any order, since each changes a
field of its own and nothing else, and the command takes what stands behind it whole. So a run whose options
have their values attached, and whose operands stand behind two dashes, is taken with these very values,
whatever characters they hold (`ofArguments_verbatim`). The one text that is lost is two dashes, as the value
of an option and as an operand that may be left out. -/

namespace Reckoner

namespace Text

open Decimal (digitText)

theorem groupedDigits?_of_digits {cs : List Char} (hne : cs ≠ [])
    (hdigits : ∀ c ∈ cs, isDigit c = true) : groupedDigits? cs = some cs := by
  induction cs with
  | nil => exact absurd rfl hne
  | cons c cs ih =>
      obtain ⟨hc, hcs⟩ := List.forall_mem_cons.1 hdigits
      cases cs with
      | nil => rw [groupedDigits?, if_pos hc]
      | cons next cs =>
          have hnext : next ≠ '_' := by
            rintro rfl
            exact absurd (hcs '_' List.mem_cons_self) (by decide)
          rw [groupedDigits?, if_pos hc, ih (List.cons_ne_nil _ _) hcs, Option.map_some]
          · exact List.cons_ne_nil next cs
          · exact fun rest heq => hnext (List.cons.inj heq).1

theorem dropWhile_isPadding {cs : List Char} (h : ∀ c ∈ cs, isPadding c = false) :
    cs.dropWhile isPadding = cs := by
  cases cs with
  | nil => rfl
  | cons c cs => exact List.dropWhile_cons_of_neg (by simp [h c List.mem_cons_self])

theorem toList_toString (n : Nat) : (toString n).toList = digitText n := by
  change n.repr.toList = _
  rw [Nat.toList_repr, digitText]

theorem isPadding_digitText {n : Nat} {c : Char} (h : c ∈ digitText n) : isPadding c = false := by
  rw [isPadding, not_isBlank_of_isShown (Decimal.isShown_digitText h), Bool.false_and]

theorem length_digitText_le {n : Nat} (h : n < 2 ^ 63) : (digitText n).length ≤ maxDigits := by
  have hlength : (digitText n).length ≤ 19 :=
    (Nat.length_toDigits_le_iff (by decide) (by decide)).2 (Nat.lt_trans h (by decide))
  exact Nat.le_trans hlength (by decide)

/-- A text that is digits once the padding is taken off is read as the number that they write. -/
theorem wholeNumber?_of_digits {s : String} {cs : List Char}
    (hcs : ((s.toList.dropWhile isPadding).reverse.dropWhile isPadding).reverse = cs) (hne : cs ≠ [])
    (hdigits : ∀ c ∈ cs, isDigit c = true) (hlength : cs.length ≤ maxDigits) :
    wholeNumber? s = some (digitsValue cs : Int) := by
  have hgrouped := groupedDigits?_of_digits hne hdigits
  unfold wholeNumber?
  rw [hcs]
  extract_lets text
  have htext : text = cs := rfl
  clear_value text
  subst htext
  split
  next negative digits hsplit =>
    have hunsigned : negative = false ∧ digits = text := by
      split at hsplit
      · exact absurd (hdigits '-' List.mem_cons_self) (by decide)
      · exact absurd (hdigits '+' List.mem_cons_self) (by decide)
      · cases hsplit
        exact ⟨rfl, rfl⟩
    obtain ⟨rfl, rfl⟩ := hunsigned
    simp only [hgrouped, if_neg (Nat.not_lt.2 hlength)]
    rfl

theorem wholeNumber?_toString {n : Nat} (h : n < 2 ^ 63) : wholeNumber? (toString n) = some (n : Int) := by
  have hdigits : ∀ c ∈ digitText n, isDigit c = true := fun _ => isDigit_digitText
  have hunpadded : (((toString n).toList.dropWhile isPadding).reverse.dropWhile isPadding).reverse =
      digitText n := by
    rw [toList_toString, dropWhile_isPadding fun _ => isPadding_digitText,
      dropWhile_isPadding fun _ hc => isPadding_digitText (List.mem_reverse.1 hc), List.reverse_reverse]
  rw [wholeNumber?_of_digits hunpadded (digitText_ne_nil n) hdigits (length_digitText_le h),
    digitsValue_digitText]

theorem toString_ne_separator (n : Nat) : toString n ≠ "--" := by
  intro h
  have hmem : '-' ∈ digitText n := by
    rw [← toList_toString, h]
    decide
  exact absurd (isDigit_digitText hmem) (by decide)

end Text

namespace Invocation

open Arguments Grammar

variable {p : String} {n : Nat} {options : List GlobalOption}

theorem readWhole_toString (h : n < 2 ^ 63) : readWhole (some (toString n)) = .ok (.whole n) := by
  rw [readWhole, Text.wholeNumber?_toString h]

theorem act_historyFile (hp : p ≠ "--") (draft : Draft) :
    GlobalOption.act draft (.historyFile p) = .ok { draft with historyFile := .text p } := by
  rw [GlobalOption.act, actValue, historyFileOption, if_neg hp]
  rfl

theorem act_historyLimit (hn : n < 2 ^ 63) (draft : Draft) :
    GlobalOption.act draft (.historyLimit (toString n)) = .ok { draft with historyLimit := .whole n } := by
  rw [GlobalOption.act, actValue, historyLimitOption, if_neg (Text.toString_ne_separator n)]
  simp only [readWhole_toString hn]
  rfl

/-- Options of these values change the fields that are theirs, in whatever order and however often they are
given. -/
theorem actAll_of_values (hp : p ≠ "--") (hn : n < 2 ^ 63)
    (h : ∀ o ∈ options, o = .historyFile p ∨ o = .historyLimit (toString n) ∨ o = .verbose)
    (draft : Draft) :
    GlobalOption.actAll draft options =
      .ok { draft with
        historyFile := if .historyFile p ∈ options then .text p else draft.historyFile
        historyLimit := if .historyLimit (toString n) ∈ options then .whole n else draft.historyLimit
        verbose := draft.verbose || decide (.verbose ∈ options) } := by
  induction options generalizing draft with
  | nil => simp [GlobalOption.actAll]
  | cons o options ih =>
      obtain ⟨ho, hoptions⟩ := List.forall_mem_cons.1 h
      rcases ho with rfl | rfl | rfl
      · rw [GlobalOption.actAll, act_historyFile hp]
        simp only [ih hoptions]
        simp
      · rw [GlobalOption.actAll, act_historyLimit hn]
        simp only [ih hoptions]
        simp
      · rw [GlobalOption.actAll, GlobalOption.act]
        simp only [ih hoptions]
        simp

/-- The options that give a history file, a limit and whether to tell more. -/
def givenOptions (p : String) (n : Nat) (verbose : Bool) : List GlobalOption :=
  [.historyFile p, .historyLimit (toString n)] ++ if verbose then [.verbose] else []

theorem mem_givenOptions {verbose : Bool} {o : GlobalOption} :
    o ∈ givenOptions p n verbose ↔
      o = .historyFile p ∨ o = .historyLimit (toString n) ∨ o = .verbose ∧ verbose = true := by
  cases verbose <;> simp [givenOptions]

theorem actAll_of_perm (hp : p ≠ "--") (hn : n < 2 ^ 63) {verbose : Bool}
    (h : options.Perm (givenOptions p n verbose)) :
    GlobalOption.actAll Draft.initial options = .ok ⟨.text p, .whole n, verbose, .clear⟩ := by
  have hvalues : ∀ o ∈ options, o = .historyFile p ∨ o = .historyLimit (toString n) ∨ o = .verbose := by
    intro o ho
    exact (mem_givenOptions.1 (h.mem_iff.1 ho)).imp_right (Or.imp_right And.left)
  rw [actAll_of_values hp hn hvalues]
  simp [h.mem_iff, mem_givenOptions, Draft.initial]

/-- The level of what is logged. -/
def logLevel (verbose : Bool) : Log.Level :=
  if verbose then .info else .warning

theorem check_of_values (path : Path) (level : Log.Level) (hleast : 1 ≤ n) (hmost : n ≤ maxHistoryLimit) :
    Settings.check (.ok path) (.ok (n : Int)) (.ok level) = .ok ⟨path, n, level, hleast, hmost⟩ := by
  have hpositive : ¬(n : Int) < 1 := by omega
  have hbounds : 1 ≤ (n : Int).toNat ∧ (n : Int).toNat ≤ maxHistoryLimit := ⟨hleast, hmost⟩
  simp only [Settings.check, if_neg hpositive, dif_pos hbounds]
  rfl

theorem checkSettings_of_values (p : String) (verbose : Bool) (hleast : 1 ≤ n) (hmost : n ≤ maxHistoryLimit)
    (command : CommandDraft) :
    checkSettings ⟨.text p, .whole n, verbose, command⟩ =
      .ok ⟨Path.ofString p, n, logLevel verbose, hleast, hmost⟩ := by
  have hfields : checkSettings ⟨.text p, .whole n, verbose, command⟩ =
      Settings.check (.ok (Path.ofString p)) (.ok (n : Int)) (.ok (logLevel verbose)) := by
    cases verbose <;> rfl
  rw [hfields, check_of_values]

theorem settingsOf_of_perm (hp : p ≠ "--") (hleast : 1 ≤ n) (hmost : n ≤ maxHistoryLimit) {verbose : Bool}
    (h : options.Perm (givenOptions p n verbose)) :
    settingsOf options = .ok ⟨Path.ofString p, n, logLevel verbose, hleast, hmost⟩ := by
  have hn : n < 2 ^ 63 := Nat.lt_of_le_of_lt hmost (by decide)
  rw [settingsOf, actAll_of_perm hp hn h]
  simp only [checkSettings_of_values p verbose hleast hmost]

/-- Behind two dashes a program of two operands, one of which may be left out, takes any two texts, but that
two dashes are lost as the second. -/
theorem read_two {σ : Type} {g : Grammar σ} {name : String} {store : σ → String → σ}
    {storeOptional : σ → Option String → σ}
    (hoperands : g.operands = [.one name store, .optional storeOptional]) (s : σ) (first : String)
    {second : String} (hsecond : second ≠ "--") :
    g.read s ["--", first, second] = .ok (storeOptional (store s first) (some second), []) := by
  have hfirst : ["--", first].erase "--" = [first] := List.erase_cons_head "--" [first]
  have htake : g.takeOperands s [.separator, .operand first, .operand second] g.operands =
      .ok (storeOptional (store s first) (some second), [], [], []) := by
    rw [hoperands]
    change g.takeOperands (storeOptional (store s ((["--", first].erase "--").headD ""))
      ([second].erase "--").head?) [] [] = _
    rw [hfirst, erase_separator hsecond]
    rfl
  exact read_of_taken rfl rfl htake

/-- The second operand may be left out. -/
theorem read_first {σ : Type} {g : Grammar σ} {name : String} {store : σ → String → σ}
    {storeOptional : σ → Option String → σ}
    (hoperands : g.operands = [.one name store, .optional storeOptional]) (s : σ) (first : String) :
    g.read s ["--", first] = .ok (storeOptional (store s first) none, []) := by
  have hfirst : ["--", first].erase "--" = [first] := List.erase_cons_head "--" [first]
  have htake : g.takeOperands s [.separator, .operand first] g.operands =
      .ok (storeOptional (store s first) none, [], [], []) := by
    rw [hoperands]
    change g.takeOperands (storeOptional (store s ((["--", first].erase "--").headD "")) none) [] [] = _
    rw [hfirst]
    rfl
  exact read_of_taken rfl rfl htake

theorem read_nil {σ : Type} {g : Grammar σ} (hoperands : g.operands = []) (s : σ) :
    g.read s [] = .ok (s, []) := by
  rw [Grammar.read, classifyAll, hoperands]
  exact readPieces_nil g s []

theorem readCommand_apply (draft : Draft) (f : String) {x : String} (hx : x ≠ "--") :
    readCommand draft "fn" ["--", f, x] = .ok ({ draft with command := .apply f x }, []) := by
  change ((readBy applyGrammar ("", "") (fun s => .apply s.1 s.2) ["--", f, x]).map _) = _
  rw [readBy, read_two rfl _ f hx]
  rfl

theorem readCommand_applyAlone (draft : Draft) (f : String) :
    readCommand draft "fn" ["--", f] = .ok ({ draft with command := .apply f "" }, []) := by
  change ((readBy applyGrammar ("", "") (fun s => .apply s.1 s.2) ["--", f]).map _) = _
  rw [readBy, read_first rfl]
  rfl

theorem readCommand_batch (draft : Draft) (source : String) :
    readCommand draft "batch" ["--", source] = .ok ({ draft with command := .batch source }, []) := by
  change ((readBy batchGrammar "" .batch ["--", source]).map _) = _
  rw [readBy, read_one rfl]
  rfl

theorem limitText_eq : "--limit=" = "--limit" ++ "=" := by
  decide

theorem limitText_ne_separator (k : Nat) : "--limit=" ++ toString k ≠ "--" := by
  intro h
  have hequals : '=' ∈ ("--limit=" ++ toString k).toList := by
    rw [String.toList_append]
    exact List.mem_append_left _ (by decide)
  rw [h] at hequals
  exact absurd hequals (by decide)

/-- Before the command is read, its option is none of the options known. -/
theorem classifyAll_limit (k : Nat) :
    grammar.classifyAll ["--limit=" ++ toString k] = .ok [.option ("--limit=" ++ toString k) none] := by
  have hlist : ("--limit=" ++ toString k).toList = '-' :: ("-limit=".toList ++ Decimal.digitText k) := by
    rw [limitText_eq, String.toList_append, String.toList_append, Text.toList_toString, List.append_assoc]
    rfl
  have hsplit : splitEquals ('-' :: ("-limit=".toList ++ Decimal.digitText k)) =
      ("--limit".toList, some (Decimal.digitText k)) :=
    @splitEquals_append "--limit".toList (Decimal.digitText k) (by decide)
  have hequals : '=' ∈ ("--limit=" ++ toString k).toList := by
    rw [hlist]
    exact List.mem_cons_of_mem _ (List.mem_append_left _ (by decide))
  have hspace : ("-limit=".toList ++ Decimal.digitText k).contains ' ' = false := by
    rw [List.contains_eq_mem, decide_eq_false_iff_not, List.mem_append, not_or]
    exact ⟨by decide, fun h => absurd (Text.isDigit_digitText h) (by decide)⟩
  have hnegated : isNegated ("-limit=".toList ++ Decimal.digitText k) = false := by
    rw [← Bool.not_eq_true]
    intro h
    exact absurd (mem_of_isNegated h List.mem_cons_self) (by decide)
  have hcandidates : (if ('-' :: ("-limit=".toList ++ Decimal.digitText k)).take 2 = ['-', '-'] then
        grammar.longCandidates ('-' :: ("-limit=".toList ++ Decimal.digitText k))
      else grammar.shortCandidates ('-' :: ("-limit=".toList ++ Decimal.digitText k))) = [] := by
    have hdashes : ('-' :: ("-limit=".toList ++ Decimal.digitText k)).take 2 = ['-', '-'] := rfl
    rw [if_pos hdashes, longCandidates, hsplit]
    rfl
  have hclassify := classify_of_unmatched hlist (List.cons_ne_nil _ _)
    (rule?_eq_none_of_equals equals_not_mem_names hequals) (by rw [hsplit]; rfl) hcandidates
  rw [hspace, hnegated] at hclassify
  exact classifyAll_singleton (limitText_ne_separator k) hclassify

def limitOption : OptionRule Form.Value :=
  ⟨["--limit"], .value fun _ arg => readWhole arg⟩

theorem readCommand_limit (draft : Draft) {k : Nat} (hk : k < 2 ^ 63) :
    readCommand draft "history" ["--limit=" ++ toString k] =
      .ok ({ draft with command := .history (.whole k) }, []) := by
  have hnames : ∀ entry ∈ historyGrammar.optionNames, '=' ∉ entry.1.toList := by
    change ∀ entry ∈ [("-h", helpOption), ("--help", helpOption), ("--limit", limitOption)], _
    simp only [List.forall_mem_cons]
    decide
  have hclassify : historyGrammar.classify ("--limit=" ++ toString k) = .ok (.option
      ("--limit=" ++ toString k) (some ⟨limitOption, "--limit", some (toString k).toList⟩)) := by
    rw [limitText_eq]
    exact classify_attached hnames (by decide) (by decide) rfl
  have hact : historyGrammar.actOption .null ⟨limitOption, "--limit", some (toString k).toList⟩ [] =
      .ok (.whole k, false) := by
    rw [actOption_attached Form.Value.null rfl, actValue, limitOption, if_neg (Text.toString_ne_separator k)]
    simp only [readWhole_toString hk]
    rfl
  have hread : historyGrammar.read .null ["--limit=" ++ toString k] = .ok (.whole k, []) := by
    rw [Grammar.read, classifyAll_singleton (limitText_ne_separator k) hclassify]
    simp only [readPieces, hact]
    exact readPieces_nil historyGrammar (.whole k) []
  change ((readBy historyGrammar .null .history ["--limit=" ++ toString k]).map _) = _
  rw [readBy, hread]
  rfl

/-- A command whose operands stand behind two dashes and whose option has its value attached. -/
inductive PlainCommand where
  | evaluate (expression : String)
  | apply (function operand : String)
  | applyAlone (function : String)
  | recent (limit : Nat)
  | history
  | clear
  | batch (source : String)
  deriving DecidableEq, Repr

namespace PlainCommand

def name : PlainCommand → String
  | evaluate _ => "eval"
  | apply .. | applyAlone _ => "fn"
  | recent _ | history => "history"
  | clear => "clear"
  | batch _ => "batch"

def args : PlainCommand → List String
  | evaluate e => ["--", e]
  | apply f x => ["--", f, x]
  | applyAlone f => ["--", f]
  | recent k => ["--limit=" ++ toString k]
  | history | clear => []
  | batch source => ["--", source]

def draft : PlainCommand → CommandDraft
  | evaluate e => .evaluate e
  | apply f x => .apply f x
  | applyAlone f => .apply f ""
  | recent k => .history (.whole k)
  | history => .history .null
  | clear => .clear
  | batch source => .batch source

/-- What is taken; an operand left out is empty, and a limit left out is none. -/
def command : PlainCommand → Command
  | evaluate e => .evaluate e
  | apply f x => .apply f x
  | applyAlone f => .apply f ""
  | recent k => .history (some k)
  | history => .history none
  | clear => .clear
  | batch source => .batch (Path.ofString source)

/-- Whether the values of a command are ones that it takes: an operand that may be left out is not two
dashes, a limit is positive and fits 64 bits with a sign, and the source of a batch is a file. -/
def Admissible (files : FileTree) : PlainCommand → Prop
  | apply _ x => x ≠ "--"
  | recent k => 1 ≤ k ∧ k < 2 ^ 63
  | batch source =>
      (Path.ofString source).hasNull = false ∧ files.isFile (Path.ofString source) = .ok true
  | _ => True

variable {files : FileTree}

theorem exists_classifyAll_args (c : PlainCommand) : ∃ pieces, grammar.classifyAll c.args = .ok pieces := by
  cases c with
  | recent k => exact ⟨_, classifyAll_limit k⟩
  | evaluate | apply | applyAlone | history | clear | batch => exact ⟨_, rfl⟩

theorem readCommand_args {c : PlainCommand} (h : c.Admissible files) (draft : Draft) :
    readCommand draft c.name c.args = .ok ({ draft with command := c.draft }, []) := by
  cases c with
  | evaluate e => exact readCommand_evaluate draft e
  | apply f x => exact readCommand_apply draft f h
  | applyAlone f => exact readCommand_applyAlone draft f
  | recent k => exact readCommand_limit draft h.2
  | history =>
      change ((readBy historyGrammar .null .history []).map _) = _
      rw [readBy, read_nil rfl]
      rfl
  | clear =>
      change ((readBy clearGrammar () (fun _ => .clear) []).map _) = _
      rw [readBy, read_nil rfl]
      rfl
  | batch source => exact readCommand_batch draft source

theorem checkCommand_draft {c : PlainCommand} (h : c.Admissible files) :
    checkCommand files c.draft = .ok c.command := by
  cases c with
  | recent k =>
      have hpositive : ¬(k : Int) < 1 := by
        have := h.1
        omega
      simp only [draft, checkCommand, Form.readWhole, if_neg hpositive]
      rfl
  | batch source => simp [draft, command, checkCommand, h.1, h.2]
  | evaluate | apply | applyAlone | history | clear => rfl

end PlainCommand

/-- Options and commands are taken with the values that they hold, whatever the texts of these values are,
and in whatever order the options stand. -/
theorem ofArguments_verbatim (files : FileTree) (hp : p ≠ "--") (hleast : 1 ≤ n)
    (hmost : n ≤ maxHistoryLimit) {verbose : Bool} (hoptions : options.Perm (givenOptions p n verbose))
    {c : PlainCommand} (hc : c.Admissible files) :
    ofArguments files (options.map GlobalOption.text ++ c.name :: c.args) =
      .ok ⟨⟨Path.ofString p, n, logLevel verbose, hleast, hmost⟩, c.command⟩ := by
  obtain ⟨pieces, hpieces⟩ := c.exists_classifyAll_args
  have hname : c.name.toList.head? ≠ some '-' := by
    cases c <;> simp [PlainCommand.name]
  rw [ofArguments_words hname hpieces (PlainCommand.readCommand_args hc),
    settingsOf_of_perm hp hleast hmost hoptions]
  simp only [Except.bind, PlainCommand.checkCommand_draft hc]
  rfl

/-- A history file that looks like options, and operands that do. -/
theorem ofArguments_verbatim_of_dashes :
    let options : List GlobalOption := [.verbose, .historyLimit "7", .historyFile "--db=-v x"]
    let c : PlainCommand := .apply "--" "-h --limit=3"
    options.Perm (givenOptions "--db=-v x" 7 true) ∧
      ofArguments ⟨[], []⟩ (options.map GlobalOption.text ++ c.name :: c.args) =
        .ok ⟨⟨Path.ofString "--db=-v x", 7, .info, by decide, by decide⟩, .apply "--" "-h --limit=3"⟩ := by
  intro options c
  have hoptions : options.Perm (givenOptions "--db=-v x" 7 true) := by decide
  have hc : c.Admissible ⟨[], []⟩ := by
    show "-h --limit=3" ≠ "--"
    decide
  exact ⟨hoptions, ofArguments_verbatim _ (by decide) (by decide) (by decide) hoptions hc⟩

end Invocation

end Reckoner
