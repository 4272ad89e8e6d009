import Mathlib.Tactic.Common
import Reckoner.Proofs.BatchAgreement
import Reckoner.Proofs.LedgerAccess

/-! What runs leave in the history. Evaluations, functions and batches add the calculations that were
accepted, in order, and clearing takes all of them away (`kept`). Runs share one history when their paths
lead to the same file and no batch writes its results on the way to it. What one run preserves is said once
(`Shares.invocation`), and so after any runs the history shows what was kept, newest first. -/

namespace Reckoner

open FileTree History

def Record.texts (r : Record) : String × String :=
  (r.input, r.result)

/-- The calculation that an outcome stands for, as its input and its result; none when it was refused. -/
def accepted (input : String) : Except CalculationError Evaluation → List (String × String)
  | .ok evaluation => [(input, evaluation.text)]
  | .error _ => []

def acceptedLines (expressions : List String) : List (String × String) :=
  expressions.flatMap fun expression => accepted expression (Expression.evaluate expression)

namespace Run

/-- What is printed of calculations, newest first. -/
def listing (calculations : List (String × String)) : String :=
  if calculations.isEmpty then "No history yet\n"
  else String.join (calculations.map fun c => c.1 ++ " = " ++ c.2 ++ "\n")

theorem historyText_eq (records : List Record) :
    historyText records = listing (records.map Record.texts) := by
  rw [historyText, listing, List.isEmpty_map, List.map_map]
  rfl

/-- A limit of one or more shows something as soon as there is something to show. -/
theorem listing_newest {n : Nat} (hone : 1 ≤ n) (past : List (String × String)) :
    listing (past.reverse.take n) =
      if past = [] then "No history yet\n"
      else String.join ((past.reverse.take n).map fun c => c.1 ++ " = " ++ c.2 ++ "\n") := by
  by_cases hpast : past = []
  · rw [if_pos hpast, hpast, List.reverse_nil, List.take_nil]
    rfl
  · have hshown : (past.reverse.take n).isEmpty = false := by
      rw [List.isEmpty_eq_false_iff, Ne, List.take_eq_nil_iff, List.reverse_eq_nil_iff]
      exact not_or.2 ⟨Nat.ne_of_gt hone, hpast⟩
    rw [if_neg hpast, listing, hshown]
    rfl

section Libraries

variable [MathLibrary] [FileFormats]

/-- The calculations that a command accepts, in order. -/
def calculations (files : FileTree) : Command → List (String × String)
  | .evaluate expression => accepted expression (Expression.evaluate expression)
  | .apply function operand =>
    accepted (function ++ "(" ++ operand ++ ")")
      (UnaryFunction.apply function (Operand.parse operand))
  | .batch source =>
    match Batch.readExpressions files source with
    | .ok expressions => acceptedLines expressions
    | .error _ => []
  | .history _ | .clear => []

/-- The calculations that are kept after an invocation, oldest first. A batch adds none unless it is
done. -/
def keptAfter (files : FileTree) (past : List (String × String)) (i : Invocation) :
    List (String × String) :=
  match i.command with
  | .clear => []
  | .batch source =>
    if (invocation files i).exit = .ok 0 then past ++ calculations files (.batch source) else past
  | command => past ++ calculations files command

/-- The calculations that are kept after runs one after another, oldest first. -/
def kept (files : FileTree) (past : List (String × String)) :
    List (List String) → List (String × String)
  | [] => past
  | args :: rest =>
    kept (filesAfter files args)
      (match Invocation.ofArguments files args with
      | .ok i => keptAfter files past i
      | .error _ => past) rest

/-- The invocations that runs one after another come to, without those whose arguments are not taken. -/
def taken (files : FileTree) : List (List String) → List Invocation
  | [] => []
  | args :: rest =>
    (Invocation.ofArguments files args).toOption.toList ++ taken (filesAfter files args) rest

theorem calculations_batch {files : FileTree} {source : Path} {es : List String}
    (h : Batch.readExpressions files source = .ok es) :
    calculations files (.batch source) = acceptedLines es := by
  change (match Batch.readExpressions files source with
    | .ok expressions => acceptedLines expressions
    | .error _ => []) = _
  rw [h]

theorem kept_append (files : FileTree) (past : List (String × String)) (runs rest : List (List String)) :
    kept files past (runs ++ rest) = kept (filesAfterAll files runs) (kept files past runs) rest := by
  induction runs generalizing files past with
  | nil => rfl
  | cons args runs ih => exact ih _ _

theorem taken_append (files : FileTree) (runs rest : List (List String)) :
    taken files (runs ++ rest) = taken files runs ++ taken (filesAfterAll files runs) rest := by
  induction runs generalizing files with
  | nil => rfl
  | cons args runs ih =>
      rw [List.cons_append, taken, ih, taken, List.append_assoc]
      rfl

end Libraries
end Run

/-- Trees that come from a tree, where paths share a history: they lead to one file that they may change,
and it holds the calculations that are kept. -/
structure Shares (t : FileTree) (S : Path → Prop) (l : Location) (past : List (String × String))
    (u : FileTree) : Prop where
  start : ∀ a, u.start a = t.start a
  leads : ∀ p, S p → Leads u p l true
  texts : (ledgerAt u l).records.map Record.texts = past.reverse

variable {t u v : FileTree} {S : Path → Prop} {l : Location} {past : List (String × String)} {p : Path}

namespace Shares

/-- What a call adds to the calculations that are kept, or takes away. -/
def afterCall (past : List (String × String)) : Call → List (String × String)
  | .insert input result => past ++ [(input, result)]
  | .recent _ => past
  | .clear => []

theorem perform {w : World} (h : Shares t S l past w.files) (hp : S p) (c : Call) :
    Shares t S l (afterCall past c) (History.perform w p c).1.files where
  start a := ((perform_grows w p c).start a).trans (h.start a)
  leads q hq := (h.leads q hq).perform_same (h.leads p hp) c
  texts := by
    have hleads := h.leads p hp
    cases c with
    | insert input result =>
        change (ledgerAt (insert w p input result).1.files l).records.map Record.texts = _
        rw [(hleads.insert_ok input result).2.own l hleads.database?_eq, afterCall,
          List.reverse_append, ← h.texts]
        rfl
    | recent limit =>
        change (ledgerAt (recent w p limit).1.files l).records.map Record.texts = _
        rw [(recent_cases w p limit).1.ledgerAt_eq hleads.database?_eq]
        exact h.texts
    | clear =>
        change (ledgerAt (clear w p).1.files l).records.map Record.texts = _
        rw [hleads.clear_ok.2.own l hleads.database?_eq]
        rfl

theorem conclusion_ok (h : Shares t S l past u) (hp : S p) (input : String)
    (outcome : Except CalculationError Evaluation) : (History.conclusion u p input outcome).2 = .ok () := by
  cases outcome with
  | error e => rfl
  | ok evaluation =>
      have hinsert := (h.leads p hp).insert_ok (w := ⟨u, []⟩) input evaluation.text
      rw [History.conclusion, ← (insert_eq_insertion ⟨u, []⟩ p input evaluation.text).2, hinsert.1]
      rfl

theorem conclusion (h : Shares t S l past u) (hp : S p) (input : String)
    (outcome : Except CalculationError Evaluation) :
    Shares t S l (past ++ accepted input outcome) (History.conclusion u p input outcome).1 := by
  cases outcome with
  | error e =>
      rw [accepted, List.append_nil]
      exact h
  | ok evaluation =>
      have hcall := h.perform (w := ⟨u, []⟩) hp (.insert input evaluation.text)
      have hfiles := (insert_eq_insertion ⟨u, []⟩ p input evaluation.text).1
      rw [History.conclusion, ← hfiles]
      exact hcall

/-- Trees share a history as well that agree everywhere but at a location out of its reach. -/
theorem congr (h : Shares t S l past u) (hp : S p) {r : Location} (hagree : AgreeOn (· ≠ r) u v)
    (hoff : ∀ q, S q → r ∉ reach u q) : Shares t S l past v := by
  have hreach : ∀ q, S q → ∀ m ∈ reach u q, m ≠ r := by
    rintro q hq m hm rfl
    exact hoff q hq hm
  have hstart : ∀ a, v.start a = u.start a := fun a => (hagree.start a).symm
  refine ⟨fun a => (hstart a).trans (h.start a), fun q hq => ?_, ?_⟩
  · obtain ⟨opened, hopen, hopened⟩ := (h.leads q hq).opens
    refine ⟨⟨opened, ?_, hopened⟩, ?_⟩
    · rw [← (openLedger_congr hagree (hreach q hq)).1]
      exact hopen
    · rw [passage_eq_of_start hstart]
      exact (h.leads q hq).apart
  · obtain ⟨opened, hopen, hlocation, -⟩ := (h.leads p hp).opens
    have hl := (opened_of_openLedger hopen hlocation).1
    rw [ledgerAt, ← hagree.entry l (hreach p hp l (footprint_subset_reach u p l hl))]
    exact h.texts

end Shares

/-- What the conclusions of expressions do to the files, one after another. -/
def History.concludeAll (t : FileTree) (p : Path) (expressions : List String) : FileTree :=
  expressions.foldl (fun t e => (History.conclusion t p e (Expression.evaluate e)).1) t

theorem Shares.concludeAll (h : Shares t S l past u) (hp : S p) (es : List String) :
    Shares t S l (past ++ acceptedLines es) (History.concludeAll u p es) := by
  induction es generalizing u past with
  | nil =>
      rw [acceptedLines, List.flatMap_nil, List.append_nil]
      exact h
  | cons e es ih =>
      have hrest := ih (h.conclusion hp e (Expression.evaluate e))
      rw [List.append_assoc] at hrest
      exact hrest

namespace Batch

/-- The lines of a batch on a shared history are all written, and the files are those of the conclusions
but for the results file. -/
theorem evaluateAll_concludeAll {settings : Settings} (hshares : Shares t S l past u)
    (hp : S settings.historyPath) {r : Location} {results : Path} (es : List String) {d : Desk}
    {text : String} (hdesk : d.session.settings = settings)
    (hstep : InStep r results settings.historyPath text.toList d.world.files u) :
    (evaluateAll d results text es).2 = .ok () ∧
      AgreeOn (· ≠ r) (evaluateAll d results text es).1.world.files
        (History.concludeAll u settings.historyPath es) := by
  induction es generalizing d u text past with
  | nil => exact ⟨rfl, hstep.agree⟩
  | cons e es ih =>
      rcases evaluateAll_cons e es hdesk hstep with ⟨-, d', hdesk', hstep', hnext⟩ | ⟨fault, hfault, -⟩
      · rw [hnext]
        exact ih (hshares.conclusion hp e (Expression.evaluate e)) hdesk' hstep'
      · cases hfault.symm.trans (hshares.conclusion_ok hp e (Expression.evaluate e))

end Batch

namespace Run

variable [MathLibrary] [FileFormats]

theorem files_invocation_batch (files : FileTree) (settings : Settings) (source : Path) :
    (invocation files ⟨settings, .batch source⟩).world.files =
      (Batch.run ⟨.new settings, ⟨files, []⟩⟩ source).1.world.files := by
  change (command ⟨files, []⟩ settings (.batch source)).world.files = _
  cases hcall : (Batch.run ⟨.new settings, ⟨files, []⟩⟩ source).2 with
  | error fault => rw [(command_batch _ settings source).1 fault hcall, Outcome.files_ofFault]
  | ok results =>
      rw [(command_batch _ settings source).2 results hcall]
      rfl

theorem files_invocation_history (files : FileTree) (settings : Settings) (limit : Option Nat) :
    (invocation files ⟨settings, .history limit⟩).world.files =
      (History.recent ⟨files, []⟩ settings.historyPath (limit.getD settings.historyLimit)).1.files := by
  change (command ⟨files, []⟩ settings (.history limit)).world.files = _
  cases hcall : (History.recent ⟨files, []⟩ settings.historyPath
    (limit.getD settings.historyLimit)).2 with
  | error fault => rw [(command_history _ settings limit).1 fault hcall, Outcome.files_ofFault]
  | ok records =>
      rw [(command_history _ settings limit).2 records hcall]
      rfl

theorem files_invocation_clear (files : FileTree) (settings : Settings) :
    (invocation files ⟨settings, .clear⟩).world.files =
      (History.clear ⟨files, []⟩ settings.historyPath).1.files := by
  change (command ⟨files, []⟩ settings .clear).world.files = _
  cases hcall : (History.clear ⟨files, []⟩ settings.historyPath).2 with
  | error fault => rw [(command_clear _ settings).1 fault hcall, Outcome.files_ofFault]
  | ok count =>
      rw [(command_clear _ settings).2 count hcall]
      rfl

end Run

/-! ### Runs -/

/-- The results of a batch are not written on the way to a history that paths share. -/
def ResultsOff (t : FileTree) (S : Path → Prop) (source : Path) : Prop :=
  ∀ results, Batch.resultsPath source = .ok results → ∀ p, S p →
    destination (t.start results.anchor) results.names ∉ footprint t p

namespace Shares

section Libraries

variable [MathLibrary] [FileFormats]

/-- A batch that does not start leaves the history as it is. One that starts is done, since neither its
results nor its history get in the way, and adds what it accepts. -/
theorem batch {settings : Settings} {source : Path} (h : Shares t S l past u)
    (hp : S settings.historyPath) (hoff : ResultsOff t S source) :
    Shares t S l (Run.keptAfter u past ⟨settings, .batch source⟩)
      (Run.invocation u ⟨settings, .batch source⟩).world.files := by
  obtain ⟨hdone, hundone⟩ := Batch.invocation_batch u settings source
  rw [Run.files_invocation_batch, Run.keptAfter]
  rcases Batch.run_starts_or ⟨.new settings, ⟨u, []⟩⟩ source with ⟨hfiles, hfault⟩ |
    ⟨results, es, files, hresults, hread, hwrite⟩
  · have hexit : (Run.invocation u ⟨settings, .batch source⟩).exit ≠ .ok 0 := by
      rcases hfault with hfault | ⟨f, -, hfault⟩ | ⟨f, hfault⟩
      · exact hundone _ hfault
      · exact hundone _ hfault
      · exact hundone _ hfault
    simp only [if_neg hexit, hfiles]
    exact h
  · obtain ⟨r, hlocate, hopen⟩ := write_ok hwrite
    have hr : ∀ q, S q → r ∉ reach u q := by
      intro q hq
      refine not_mem_reach ?_ (Batch.not_mem_sides_of_resultsPath hresults hlocate)
      rw [eq_destination_of_locate hlocate, footprint_eq_of_start h.start, h.start]
      exact hoff results hresults q hq
    obtain ⟨files', hwrite', hstep⟩ := Batch.exists_write_inStep (AgreeOn.refl (· ≠ r) u) hlocate hopen
      (hr _ hp) "".toList
    cases hwrite'.symm.trans hwrite
    obtain ⟨d, hsession, hfiles, -, hall⟩ := Batch.run_of_read hresults hread hwrite
    rw [← hfiles] at hstep
    obtain ⟨hok, hagree⟩ := Batch.evaluateAll_concludeAll h hp es
      (congrArg Session.settings hsession) hstep
    obtain ⟨hanswer, hafter⟩ := hall hok
    simp only [if_pos (hdone results hanswer).1, Run.calculations_batch hread, hafter]
    have hstart := (h.concludeAll hp es).start
    refine (h.concludeAll hp es).congr hp hagree.symm fun q hq => ?_
    rw [reach_eq_of_start hstart, ← reach_eq_of_start h.start]
    exact hr q hq

theorem invocation {i : Invocation} (h : Shares t S l past u) (hp : S i.settings.historyPath)
    (hoff : ∀ source, i.command = .batch source → ResultsOff t S source) :
    Shares t S l (Run.keptAfter u past i) (Run.invocation u i).world.files := by
  obtain ⟨settings, command⟩ := i
  cases command with
  | evaluate expression =>
      rw [(Run.invocation_evaluate u settings expression).1]
      exact h.conclusion hp expression (Expression.evaluate expression)
  | apply function operand =>
      rw [(Run.invocation_apply u settings function operand).1]
      exact h.conclusion hp _ (UnaryFunction.apply function (Operand.parse operand))
  | history limit =>
      change Shares t S l (past ++ []) _
      rw [Run.files_invocation_history, List.append_nil]
      exact h.perform (w := ⟨u, []⟩) hp (.recent (limit.getD settings.historyLimit))
  | clear =>
      rw [Run.files_invocation_clear]
      exact h.perform (w := ⟨u, []⟩) hp .clear
  | batch source => exact h.batch hp (hoff source rfl)

/-- Runs on a shared history keep it shared, and it holds what they kept. -/
theorem runs {runs : List (List String)} (h : Shares t S l past u)
    (hp : ∀ i ∈ Run.taken u runs, S i.settings.historyPath)
    (hoff : ∀ i ∈ Run.taken u runs, ∀ source, i.command = .batch source → ResultsOff t S source) :
    Shares t S l (Run.kept u past runs) (Run.filesAfterAll u runs) := by
  -- each run starts from the tree and the calculations that the one before left, so both are general
  induction runs generalizing u past with
  | nil => exact h
  | cons args runs ih =>
      rw [Run.taken] at hp hoff
      rw [Run.kept, Run.filesAfterAll, List.foldl_cons]
      refine ih ?_ (fun i hi => hp i (List.mem_append_right _ hi))
        fun i hi => hoff i (List.mem_append_right _ hi)
      cases hargs : Invocation.ofArguments u args with
      | error rejection =>
          rw [Run.filesAfter, Run.arguments, hargs]
          exact h
      | ok i =>
          have hi : i ∈ (Invocation.ofArguments u args).toOption.toList := by
            rw [hargs]
            exact List.mem_singleton_self i
          rw [Run.filesAfter, Run.arguments, hargs]
          exact h.invocation (hp i (List.mem_append_left _ hi)) (hoff i (List.mem_append_left _ hi))

/-- A list of the newest calculations shows those that are kept. -/
theorem history_tells {settings : Settings} {limit : Option Nat} (h : Shares t S l past u)
    (hp : S settings.historyPath) (hone : 1 ≤ limit.getD settings.historyLimit)
    (hmax : (limit.getD settings.historyLimit : Int) ≤ maxLimit) :
    (Run.invocation u ⟨settings, .history limit⟩).exit = .ok 0 ∧
      (Run.invocation u ⟨settings, .history limit⟩).output =
        Run.listing (past.reverse.take (limit.getD settings.historyLimit)) := by
  have hrecent := (h.leads _ hp).recent_ok (w := ⟨u, []⟩) (Int.ofNat_le.2 hone)
  rw [if_neg (Int.not_lt.2 hmax)] at hrecent
  change (Run.command ⟨u, []⟩ settings (.history limit)).exit = _ ∧
    (Run.command ⟨u, []⟩ settings (.history limit)).output = _
  rw [(Run.command_history _ settings limit).2 _ hrecent]
  refine ⟨rfl, ?_⟩
  change Run.historyText ((ledgerAt u l).records.take (limit.getD settings.historyLimit)) = _
  rw [Run.historyText_eq, List.map_take, h.texts]

/-- Clearing tells how many calculations were kept. -/
theorem clear_tells {settings : Settings} (h : Shares t S l past u) (hp : S settings.historyPath) :
    (Run.invocation u ⟨settings, .clear⟩).exit = .ok 0 ∧
      (Run.invocation u ⟨settings, .clear⟩).output =
        "Cleared " ++ toString past.length ++ " calculation(s)\n" := by
  have hclear := ((h.leads _ hp).clear_ok (w := ⟨u, []⟩)).1
  have hsize : (ledgerAt u l).size = past.length := by
    rw [Ledger.size, ← List.length_map Record.texts, h.texts, List.length_reverse]
  rw [hsize] at hclear
  change (Run.command ⟨u, []⟩ settings .clear).exit = _ ∧
    (Run.command ⟨u, []⟩ settings .clear).output = _
  rw [(Run.command_clear _ settings).2 _ hclear]
  exact ⟨rfl, rfl⟩

/-- A run that does not end well adds nothing and takes nothing away. -/
theorem keptAfter_of_exit_ne {i : Invocation} (h : Shares t S l past u) (hp : S i.settings.historyPath)
    (hexit : (Run.invocation u i).exit ≠ .ok 0) : Run.keptAfter u past i = past := by
  have haccepted : ∀ (input : String) (outcome : Except CalculationError Evaluation),
      Run.exitCode outcome ≠ 0 → past ++ accepted input outcome = past := by
    intro input outcome hcode
    cases outcome with
    | error e => exact List.append_nil past
    | ok evaluation => exact absurd rfl hcode
  obtain ⟨settings, command⟩ := i
  cases command with
  | evaluate expression =>
      have hends := (Run.invocation_evaluate u settings expression).2 (h.conclusion_ok hp _ _)
      refine haccepted _ _ fun hzero => hexit ?_
      rw [hends.1, hzero]
  | apply function operand =>
      have hends := (Run.invocation_apply u settings function operand).2 (h.conclusion_ok hp _ _)
      refine haccepted _ _ fun hzero => hexit ?_
      rw [hends.1, hzero]
  | history limit => exact List.append_nil past
  | clear => exact absurd (h.clear_tells hp).1 hexit
  | batch source => exact if_neg hexit

end Libraries
end Shares

/-- Invocations have one history: their paths lead from a tree to one file, which is not there yet, and no
batch among them writes its results to that file or on the way to it. -/
structure OneHistory (t : FileTree) (l : Location) (taken : List Invocation) : Prop where
  absent : t.get? l = none
  leads : ∀ i ∈ taken, Leads t i.settings.historyPath l true
  apart : ∀ i ∈ taken, ∀ j ∈ taken, ∀ source results, j.command = .batch source →
    Batch.resultsPath source = .ok results →
    destination (t.start results.anchor) results.names ∉ footprint t i.settings.historyPath

theorem OneHistory.shares {taken : List Invocation} (h : OneHistory t l taken) :
    Shares t (fun p => ∃ i ∈ taken, i.settings.historyPath = p) l [] t where
  start _ := rfl
  leads := by
    rintro p ⟨i, hi, rfl⟩
    exact h.leads i hi
  texts := by
    rw [ledgerAt, h.absent]
    rfl

namespace Invocation

theorem one_le_of_checkCommand {files : FileTree} {draft : CommandDraft} {n : Nat}
    (h : checkCommand files draft = .ok (.history (some n))) : 1 ≤ n := by
  cases draft with
  | evaluate e => cases h
  | apply f x => cases h
  | clear => cases h
  | batch source =>
      simp only [checkCommand] at h
      split_ifs at h
      split at h <;> cases h
  | history value =>
      have hread : ∀ {m : Int}, ¬ m < 1 → m.toNat = n → 1 ≤ n := by
        intro m hm hn
        omega
      cases value with
      | null => cases h
      | _ =>
          simp only [checkCommand] at h
          split at h
          · cases h
          · split_ifs at h with hsmall
            cases h
            exact hread hsmall rfl

/-- The command of an invocation has been checked. -/
theorem exists_checkCommand {files : FileTree} {args : List String} {settings : Settings}
    {command : Command} (h : ofArguments files args = .ok ⟨settings, command⟩) :
    ∃ draft, checkCommand files draft = .ok command := by
  rw [ofArguments] at h
  cases hdraft : readDraft args with
  | error refusal =>
      rw [hdraft] at h
      cases h
  | ok draft =>
      simp only [hdraft, ofDraft] at h
      cases hsettings : checkSettings draft with
      | error complaints =>
          rw [hsettings] at h
          cases h
      | ok settings' =>
          simp only [hsettings] at h
          cases hcommand : checkCommand files draft.command with
          | error rejection =>
              rw [hcommand] at h
              cases h
          | ok command' =>
              rw [hcommand] at h
              cases h
              exact ⟨draft.command, hcommand⟩

theorem one_le_of_ofArguments {files : FileTree} {args : List String} {settings : Settings}
    {limit : Option Nat} (h : ofArguments files args = .ok ⟨settings, .history limit⟩) :
    1 ≤ limit.getD settings.historyLimit := by
  cases limit with
  | none => exact settings.one_le_limit
  | some n =>
      obtain ⟨draft, hcommand⟩ := exists_checkCommand h
      exact one_le_of_checkCommand hcommand

end Invocation

section Libraries

variable [MathLibrary] [FileFormats]

/-- Runs on one history, one after another. A list of the newest calculations shows those that were
accepted since the history was last cleared, newest first and each once, as many as the limit allows;
clearing tells how many there are; and a run that does not end well adds none and takes none away. -/
theorem runs_tell_kept {runs : List (List String)} {args : List String} {i : Invocation}
    (h : OneHistory t l (Run.taken t (runs ++ [args])))
    (hargs : Invocation.ofArguments (Run.filesAfterAll t runs) args = .ok i) :
    let past := Run.kept t [] runs
    ∃ o, Run.arguments (Run.filesAfterAll t runs) args = .ok o ∧
      (∀ limit, i.command = .history limit →
        let n := limit.getD i.settings.historyLimit
        (n : Int) ≤ maxLimit → o.exit = .ok 0 ∧
          o.output = if past = [] then "No history yet\n" else
            String.join ((past.reverse.take n).map fun c => c.1 ++ " = " ++ c.2 ++ "\n")) ∧
      (i.command = .clear → o.exit = .ok 0 ∧
        o.output = "Cleared " ++ toString past.length ++ " calculation(s)\n") ∧
      (o.exit ≠ .ok 0 → Run.kept t [] (runs ++ [args]) = past) := by
  intro past
  have hlast : i ∈ Run.taken t (runs ++ [args]) := by
    rw [Run.taken_append, Run.taken, hargs]
    exact List.mem_append_right _ (List.mem_append_left _ (List.mem_singleton_self i))
  have hearlier : ∀ j ∈ Run.taken t runs, j ∈ Run.taken t (runs ++ [args]) := by
    intro j hj
    rw [Run.taken_append]
    exact List.mem_append_left _ hj
  have hshares := h.shares.runs (fun j hj => ⟨j, hearlier j hj, rfl⟩) fun j hj source hc results hr => by
    rintro p ⟨k, hk, rfl⟩
    exact h.apart k hk j (hearlier j hj) source results hc hr
  refine ⟨Run.invocation (Run.filesAfterAll t runs) i, ?_, fun limit hc hmax => ?_, fun hc => ?_, fun hexit => ?_⟩
  · rw [Run.arguments, hargs]
  · obtain ⟨settings, command⟩ := i
    cases hc
    have hone := Invocation.one_le_of_ofArguments hargs
    obtain ⟨hexit, houtput⟩ := hshares.history_tells ⟨_, hlast, rfl⟩ hone hmax
    refine ⟨hexit, houtput.trans ?_⟩
    exact Run.listing_newest hone past
  · obtain ⟨settings, command⟩ := i
    cases hc
    exact hshares.clear_tells ⟨_, hlast, rfl⟩
  · rw [Run.kept_append, Run.kept, hargs]
    exact hshares.keptAfter_of_exit_ne ⟨i, hlast, rfl⟩ hexit

end Libraries

attribute [local instance] MathLibrary.ofSeries FileFormats.textual

theorem runs_tell_kept_of_batch :
    let t : FileTree := ⟨[(["w"], .directory),
      (["w", "sums.txt"], .file (.plain (Text.utf8Encode "2*3\n1+\n".toList)))], ["w"]⟩
    let runs := [["--db", "d.db", "eval", "1+1"], ["fn"], ["--db", "./d.db", "batch", "sums.txt"],
      ["--db", "d.db", "fn", "square", "3"], ["--db", "d.db", "eval", "1+"]]
    let args := ["--db", "d.db", "history", "--limit", "2"]
    OneHistory t ["w", "d.db"] (Run.taken t (runs ++ [args])) ∧
      ∃ o, Run.arguments (Run.filesAfterAll t runs) args = .ok o ∧ o.exit = .ok 0 ∧
        o.output = "square(3) = 9\n2*3 = 6\n" := by
  intro t runs args
  let settings : Settings := ⟨Path.ofString "d.db", 20, .warning, by decide, by decide⟩
  have htaken : Run.taken t (runs ++ [args]) =
      [⟨settings, .evaluate "1+1"⟩, ⟨settings, .batch (Path.ofString "sums.txt")⟩,
        ⟨settings, .apply "square" "3"⟩, ⟨settings, .evaluate "1+"⟩, ⟨settings, .history (some 2)⟩] := by
    decide +kernel
  have hsettings : ∀ i ∈ Run.taken t (runs ++ [args]), i.settings = settings := by
    rw [htaken]
    decide +kernel
  have hbatch : ∀ j ∈ Run.taken t (runs ++ [args]), ∀ source, j.command = .batch source →
      source = Path.ofString "sums.txt" := by
    rw [htaken]
    simp
  have hone : OneHistory t ["w", "d.db"] (Run.taken t (runs ++ [args])) :=
    { absent := by decide +kernel
      leads := fun i hi => by
        rw [hsettings i hi]
        exact ⟨⟨⟨some ["w", "d.db"], .empty, true, false⟩, by decide +kernel⟩, by decide +kernel⟩
      apart := fun i hi j hj source results hc hr => by
        rw [hsettings i hi]
        rw [hbatch j hj source hc] at hr
        cases hr
        decide +kernel }
  have hargs : Invocation.ofArguments (Run.filesAfterAll t runs) args =
      .ok ⟨settings, .history (some 2)⟩ := by decide +kernel
  obtain ⟨o, hrun, hhistory, -, -⟩ := runs_tell_kept hone hargs
  obtain ⟨hexit, houtput⟩ := hhistory (some 2) rfl (by decide)
  exact ⟨hone, o, hrun, hexit, houtput.trans (by decide +kernel)⟩

end Reckoner
