import Reckoner.Files.TextFormats
import Reckoner.Proofs.CalculationRun
import Reckoner.Proofs.InfixArrangement
import Reckoner.Proofs.BatchPlaces
import Reckoner.Proofs.Utf8Text

/-! A batch against the same expressions evaluated one run at a time. While the batch goes on, its tree
and that of the single runs agree everywhere but at the results file (`InStep`): each expression has the
same conclusion in both, and what the batch writes besides is the results file, which the history never
looks at. Its lines are those of the single runs. -/

namespace Reckoner
namespace Batch

open FileTree

/-- The line of an expression, without its end. -/
def lineOf (expression : String) : Except CalculationError Evaluation → String
  | .error e => expression ++ " -> ERROR: " ++ e.message
  | .ok evaluation => expression ++ " = " ++ evaluation.text

/-- What marks the line of a refused expression. -/
def refusalMark : List Char := " -> ERROR: ".toList

theorem isLine_lineOf {expression : String} (h : Text.IsLine expression.toList)
    (outcome : Except CalculationError Evaluation) :
    Text.IsLine (lineOf expression outcome).toList := by
  cases outcome with
  | error e =>
      rw [lineOf, String.toList_append, String.toList_append]
      exact Text.isLine_append.2 ⟨Text.isLine_append.2 ⟨h, Text.isLine_of_all (by decide +kernel)⟩,
        e.isLine_message⟩
  | ok evaluation =>
      rw [lineOf, String.toList_append, String.toList_append]
      exact Text.isLine_append.2 ⟨Text.isLine_append.2 ⟨h, Text.isLine_of_all (by decide +kernel)⟩,
        Binary64.isLine_display evaluation.value⟩

/-- The line of an expression holds the mark exactly when it is refused: an accepted expression and the
display text of its value have no character in common with the arrow. -/
theorem refusalMark_infix_lineOf (expression : String) :
    refusalMark <:+: (lineOf expression (Expression.evaluate expression)).toList ↔
      ∃ e, Expression.evaluate expression = .error e := by
  cases hevaluate : Expression.evaluate expression with
  | error e =>
      refine ⟨fun _ => ⟨e, rfl⟩, fun _ => ⟨expression.toList, e.message.toList, ?_⟩⟩
      rw [lineOf, String.toList_append, String.toList_append]
      rfl
  | ok evaluation =>
      refine ⟨fun h => ?_, ?_⟩
      swap
      · rintro ⟨e, he⟩
        cases he
      have harrow : '>' ∈ (lineOf expression (.ok evaluation)).toList :=
        h.subset (by decide +kernel)
      rw [lineOf, String.toList_append, String.toList_append, List.mem_append, List.mem_append] at harrow
      rcases harrow with (hexpression | hequals) | hvalue
      · have hallowed := Expression.isAllowed_of_evaluate hevaluate '>' hexpression
        exact absurd hallowed (by decide +kernel)
      · exact absurd hequals (by decide +kernel)
      · exact absurd hvalue (Binary64.not_mem_display (by decide) (by decide +kernel))

theorem evaluateLine_eq (d : Desk) (expression : String) :
    let outcome := Expression.evaluate expression
    let conclusion := History.conclusion d.world.files d.session.settings.historyPath expression outcome
    (evaluateLine d expression).1.world.files = conclusion.1 ∧
      (evaluateLine d expression).1.session.settings = d.session.settings ∧
      (conclusion.2 = .ok () →
        (evaluateLine d expression).2 = .ok (lineOf expression outcome ++ "\n")) ∧
      (∀ fault, conclusion.2 = .error fault →
        (evaluateLine d expression).2 = .error (.history fault)) := by
  intro outcome conclusion
  obtain ⟨hfiles, hanswer, hsettings, -, -⟩ := Desk.conclude_eq
    { d with session.input := expression } expression outcome
  have hcalculate : d.calculate (some expression) =
      Desk.conclude { d with session.input := expression } expression outcome := rfl
  rw [← hcalculate] at hfiles hanswer hsettings
  rw [evaluateLine]
  cases hevaluate : Expression.evaluate expression with
  | error e =>
      have houtcome : outcome = .error e := hevaluate
      simp only [conclusion, houtcome, History.conclusion]
      exact ⟨trivial, trivial, fun _ => rfl, fun fault h => by cases h⟩
  | ok evaluation =>
      have houtcome : outcome = .ok evaluation := hevaluate
      rcases hcall : d.calculate (some expression) with ⟨d', x⟩
      rw [hcall] at hfiles hanswer hsettings
      cases hconclusion : conclusion.2 with
      | error fault =>
          have hx : x = .error fault := hanswer.trans (congrArg (Except.map _) hconclusion)
          subst hx
          refine ⟨hfiles, hsettings, fun hok => (by cases hok), fun fault' hfault => ?_⟩
          cases hfault
          rfl
      | ok done =>
          have hx : x = .ok outcome.toOption := hanswer.trans (congrArg (Except.map _) hconclusion)
          subst hx
          refine ⟨hfiles, hsettings, fun _ => ?_, fun fault hfault => by cases hfault⟩
          rw [houtcome]
          rfl

open Invocation (GlobalOption commandArguments settingsOf)

/-- The tree of a batch and that of the single runs, when both have come equally far: they agree
everywhere but at the results file, which holds the lines so far and is out of the reach of the history. -/
structure InStep (l : Location) (results history : Path) (cs : List Char) (t u : FileTree) : Prop where
  agree : AgreeOn (· ≠ l) t u
  locate : t.locate results = .ok l
  content : t.get? l = some (.file (.plain (Text.utf8Encode cs)))
  apart : l ∉ History.reach t history

/-- Writing the results file brings trees into step. -/
theorem exists_write_inStep {l : Location} {results history : Path} {t u : FileTree}
    (h : AgreeOn (· ≠ l) t u) (hlocate : t.locate results = .ok l)
    (hopen : t.get? l ≠ some .directory) (hapart : l ∉ History.reach t history)
    (cs : List Char) :
    ∃ files, t.write results (.plain (Text.utf8Encode cs)) = .ok files ∧
      InStep l results history cs files u := by
  have hroot : l ≠ [] := by
    rintro rfl
    exact hopen rfl
  refine ⟨t.put l (.file (.plain (Text.utf8Encode cs))), ?_, ?_⟩
  · rw [write, hlocate]
    cases hentry : t.get? l with
    | none => simp only [hentry]
    | some e =>
        cases e with
        | directory => exact absurd hentry hopen
        | file content => simp only [hentry]
  · have hextends : Extends [l] t (t.put l (.file (.plain (Text.utf8Encode cs)))) :=
      Extends.put t _ List.mem_cons_self hopen
    exact
      { agree := (h.symm.put_right _ (not_not_intro rfl)).symm
        locate := hextends.locate hlocate
        content := get?_put_self t _ hroot
        apart := History.reach_eq_of_start hextends.start history ▸ hapart }

/-- A conclusion in both trees keeps them in step: what it reads is off the results file. -/
theorem InStep.conclusion {l : Location} {results history : Path} {cs : List Char} {t u : FileTree}
    (h : InStep l results history cs t u) (input : String)
    (outcome : Except CalculationError Evaluation) :
    InStep l results history cs (History.conclusion t history input outcome).1
        (History.conclusion u history input outcome).1 ∧
      (History.conclusion t history input outcome).2 =
        (History.conclusion u history input outcome).2 := by
  have hextends := History.conclusion_extends t history input outcome
  have hreach : ∀ m ∈ History.reach t history, m ≠ l := by
    rintro m hm rfl
    exact h.apart hm
  obtain ⟨hanswer, hagree⟩ := History.conclusion_congr h.agree hreach input outcome
  refine ⟨?_, hanswer⟩
  exact
    { agree := hagree
      locate := hextends.locate h.locate
      content := (hextends.entry l h.apart).trans h.content
      apart := History.reach_eq_of_start hextends.start history ▸ h.apart }

/-- What a line of the results file tells of the run that evaluates its expression. -/
inductive Reports (expression : String) (run : Except Rejection Outcome) : String → Prop
  | accepted {o : Outcome} : run = .ok o → o.exit = .ok 0 →
      Reports expression run (expression ++ " = " ++ o.firstLine)
  | refused {o : Outcome} {e : CalculationError} : run = .ok o → o.exit = .ok 1 →
      Expression.evaluate expression = .error e →
      Reports expression run (expression ++ " -> ERROR: " ++ e.message)

/-- One expression of a batch: the desk that the others are evaluated at is in step with the tree of the
single run, or its conclusion left a fault, which ends the batch. -/
theorem evaluateAll_cons {settings : Settings} {l : Location} {results : Path} (e : String)
    (es : List String) {d : Desk} {u : FileTree} {text : String}
    (hdesk : d.session.settings = settings)
    (hstep : InStep l results settings.historyPath text.toList d.world.files u) :
    let conclusion := History.conclusion u settings.historyPath e (Expression.evaluate e)
    let more := text ++ (lineOf e (Expression.evaluate e) ++ "\n")
    (conclusion.2 = .ok () ∧ ∃ d' : Desk, d'.session.settings = settings ∧
        InStep l results settings.historyPath more.toList d'.world.files conclusion.1 ∧
        evaluateAll d results text (e :: es) = evaluateAll d' results more es) ∨
      ∃ fault, conclusion.2 = .error fault ∧
        (evaluateAll d results text (e :: es)).2 = .error (.history fault) := by
  intro conclusion more
  obtain ⟨hfiles, hsame, hok, hfault⟩ := evaluateLine_eq d e
  rw [hdesk] at hfiles hsame hok hfault
  obtain ⟨hstep', hanswer⟩ := hstep.conclusion e (Expression.evaluate e)
  rcases hline : evaluateLine d e with ⟨d', x⟩
  rw [hline] at hfiles hsame hok hfault
  rw [← hfiles] at hstep'
  cases hconclusion : conclusion.2 with
  | error fault =>
      have hx : x = .error (.history fault) := hfault fault (hanswer.trans hconclusion)
      refine Or.inr ⟨fault, rfl, ?_⟩
      rw [evaluateAll, hline, hx]
  | ok done =>
      have hx : x = .ok (lineOf e (Expression.evaluate e) ++ "\n") := hok (hanswer.trans hconclusion)
      have hopen := ne_directory_of_file hstep'.content
      obtain ⟨files, hwrite, hwritten⟩ :=
        exists_write_inStep hstep'.agree hstep'.locate hopen hstep'.apart more.toList
      have hwrote : writeResults d' results more = ({ d' with world.files := files }, .ok ()) := by
        rw [writeResults, show d'.world.files.write results _ = _ from hwrite]
      refine Or.inl ⟨rfl, { d' with world.files := files }, hsame, hwritten, ?_⟩
      rw [evaluateAll, hline, hx]
      simp only [more] at hwrote
      simp only [hwrote]
      rfl

section Libraries

variable [MathLibrary] [FileFormats]

theorem reports_of_conclusion {options : List GlobalOption} {settings : Settings}
    (hsettings : settingsOf options = .ok settings) (u : FileTree) (expression : String)
    (hok : (History.conclusion u settings.historyPath expression
      (Expression.evaluate expression)).2 = .ok ()) :
    Reports expression (Run.arguments u (commandArguments options "eval" [expression]))
      (lineOf expression (Expression.evaluate expression)) := by
  have hrun := Run.arguments_evaluate hsettings u expression
  obtain ⟨hexit, houtput⟩ := (Run.invocation_evaluate u settings expression).2 hok
  cases hevaluate : Expression.evaluate expression with
  | error e =>
      rw [hevaluate] at hexit
      exact .refused hrun hexit hevaluate
  | ok evaluation =>
      rw [hevaluate] at hexit houtput
      have hfirst : (Run.invocation u ⟨settings, .evaluate expression⟩).firstLine = evaluation.text :=
        Outcome.firstLine_of_isLine houtput (Binary64.isLine_display evaluation.value)
      rw [lineOf, ← hfirst]
      exact .accepted hrun hexit

/-- The lines of a batch, one after another: either each expression is concluded and the trees stay in
step, or a fault is left. -/
theorem evaluateAll_inStep {options : List GlobalOption} {settings : Settings}
    (hsettings : settingsOf options = .ok settings) {l : Location} {results : Path}
    (es : List String) {d : Desk} {u : FileTree} {text : String}
    (hdesk : d.session.settings = settings)
    (hstep : InStep l results settings.historyPath text.toList d.world.files u) :
    let runs := es.map fun e => commandArguments options "eval" [e]
    let lines := es.map fun e => lineOf e (Expression.evaluate e)
    ((evaluateAll d results text es).2 = .ok () ∧
        InStep l results settings.historyPath (text.toList ++ Text.lined (lines.map String.toList))
          (evaluateAll d results text es).1.world.files (Run.filesAfterAll u runs) ∧
        List.Forall₂ (fun x line => Reports x.1 x.2 line ∧
          (refusalMark <:+: line.toList ↔ ∃ e, Expression.evaluate x.1 = .error e))
          (es.zip (Run.sequence u runs)) lines) ∨
      ((∃ fault, (evaluateAll d results text es).2 = .error fault) ∧
        ¬History.IsOrdinary settings.historyPath) := by
  induction es generalizing d u text with
  | nil =>
      refine Or.inl ⟨rfl, ?_, .nil⟩
      rw [List.map_nil, List.map_nil, Text.lined, List.flatMap_nil, List.append_nil]
      exact hstep
  | cons e es ih =>
      rcases evaluateAll_cons e es hdesk hstep with ⟨hok, d', hdesk', hstep', hnext⟩ |
        ⟨fault, hfault, hfailed⟩
      · rw [hnext]
        rcases ih hdesk' hstep' with ⟨hdone, hin, hreports⟩ | hfailed
        · have hafter := Run.filesAfter_evaluate hsettings u e
          refine Or.inl ⟨hdone, ?_, ?_⟩
          · simp only [List.map_cons, Run.filesAfterAll, List.foldl_cons, hafter, Text.lined_cons]
            rw [String.toList_append, String.toList_append, List.append_assoc, List.append_assoc] at hin
            exact hin
          · rw [List.map_cons, List.map_cons, Run.sequence, hafter, List.zip_cons_cons]
            exact .cons ⟨reports_of_conclusion hsettings u e hok, refusalMark_infix_lineOf e⟩ hreports
        · exact Or.inr hfailed
      · refine Or.inr ⟨⟨_, hfailed⟩, fun hp => ?_⟩
        cases hfault.symm.trans (History.conclusion_ok hp u e (Expression.evaluate e))

end Libraries

section Library

variable [FileFormats]

theorem isLine_of_readExpressions {t : FileTree} {source : Path} {es : List String}
    (h : readExpressions t source = .ok es) : ∀ e ∈ es, Text.IsLine e.toList := by
  have hdecode : ∀ {bytes : List UInt8} {kind : SourceKind}, decodeLines bytes kind = .ok es →
      ∀ e ∈ es, Text.IsLine e.toList := by
    intro bytes kind hbytes e he
    rw [decodeLines] at hbytes
    split at hbytes
    · cases hbytes
      obtain ⟨cs, hcs, rfl⟩ := List.mem_map.1 he
      rw [String.toList_ofList]
      exact Text.isLine_of_mem_trimmedLines hcs
    · cases hbytes
  unfold readExpressions at h
  split at h
  · cases h
  · split at h
    · cases h
    · split at h
      · cases h
      · exact hdecode h

/-- The results file of a source can be written, and it is at a location. -/
def ResultsAt (files : FileTree) (source : Path) (l : Location) : Prop :=
  ∃ results, resultsPath source = .ok results ∧ files.locate results = .ok l ∧
    files.get? l ≠ some .directory

/-- The end of a batch, by what has become of its lines. -/
def conclude (results : Path) : Desk × Except BatchFault Unit → Desk × Except BatchFault Path
  | (d, .error fault) => (d, .error fault)
  | (d, .ok ()) => (d.log .info ("📄✅ Results written to " ++ results.text), .ok results)

theorem files_conclude (results : Path) (x : Desk × Except BatchFault Unit) :
    (conclude results x).1.world.files = x.1.world.files := by
  rcases x with ⟨d, fault | done⟩
  · rfl
  · rfl

/-- A batch whose source is read and whose results file is opened is the evaluation of its lines. -/
theorem run_eq_conclude {d : Desk} {source results : Path} {es : List String} {files : FileTree}
    (hresults : resultsPath source = .ok results)
    (hread : readExpressions d.world.files source = .ok es)
    (hwrite : d.world.files.write results (.plain (Text.utf8Encode "".toList)) = .ok files) :
    ∃ d' : Desk, d'.session = d.session ∧ d'.world.files = files ∧
      run d source = conclude results (evaluateAll d' results "" es) := by
  let logged := d.log .info
    ("📄 Evaluating " ++ toString es.length ++ " expression(s) from " ++ source.text)
  have hwrote : writeResults logged results "" =
      ({ logged with world.files := files }, .ok ()) := by
    rw [writeResults, show logged.world.files.write results _ = _ from hwrite]
  refine ⟨{ logged with world.files := files }, rfl, rfl, ?_⟩
  rw [run, hresults, hread]
  simp only [logged] at hwrote
  simp only [hwrote]
  rcases evaluateAll { logged with world.files := files } results "" es with ⟨d', fault | done⟩
  · rfl
  · rfl

theorem run_of_read {d : Desk} {source results : Path} {es : List String} {files : FileTree}
    (hresults : resultsPath source = .ok results)
    (hread : readExpressions d.world.files source = .ok es)
    (hwrite : d.world.files.write results (.plain (Text.utf8Encode "".toList)) = .ok files) :
    ∃ d' : Desk, d'.session = d.session ∧ d'.world.files = files ∧
      (∀ fault, (evaluateAll d' results "" es).2 = .error fault →
        (run d source).2 = .error fault) ∧
      ((evaluateAll d' results "" es).2 = .ok () →
        (run d source).2 = .ok results ∧
          (run d source).1.world.files = (evaluateAll d' results "" es).1.world.files) := by
  obtain ⟨d', hsession, hfiles, hrun⟩ := run_eq_conclude hresults hread hwrite
  refine ⟨d', hsession, hfiles, ?_⟩
  rw [hrun]
  rcases evaluateAll d' results "" es with ⟨d'', fault | done⟩
  · refine ⟨fun fault' h => ?_, fun h => by cases h⟩
    cases h
    rfl
  · exact ⟨fun _ h => (by cases h), fun _ => ⟨rfl, rfl⟩⟩

/-- A batch starts when its source is read and its results file is opened. If it does not start it leaves
a fault, and the files as they are. -/
theorem run_starts_or (d : Desk) (source : Path) :
    ((run d source).1.world.files = d.world.files ∧
        ((run d source).2 = .error (.noName source) ∨
          (∃ f, readExpressions d.world.files source = .error f ∧
            (run d source).2 = .error (.source f)) ∨
          ∃ f, (run d source).2 = .error (.results f))) ∨
      ∃ results es files, resultsPath source = .ok results ∧
        readExpressions d.world.files source = .ok es ∧
        d.world.files.write results (.plain (Text.utf8Encode "".toList)) = .ok files := by
  rw [run]
  cases hresults : resultsPath source with
  | error fault =>
      rw [resultsPath] at hresults
      split_ifs at hresults
      cases hresults
      exact Or.inl ⟨rfl, Or.inl rfl⟩
  | ok results =>
      cases hread : readExpressions d.world.files source with
      | error f => exact Or.inl ⟨rfl, Or.inr (Or.inl ⟨f, rfl, rfl⟩)⟩
      | ok es =>
          cases hwrite : d.world.files.write results (.plain (Text.utf8Encode "".toList)) with
          | ok files => exact Or.inr ⟨results, es, files, rfl, rfl, hwrite⟩
          | error f =>
              simp only [Desk.log, World.log, writeResults, hwrite]
              exact Or.inl ⟨trivial, Or.inr (Or.inr ⟨f, rfl⟩)⟩

end Library

section Libraries

variable [MathLibrary] [FileFormats]

theorem invocation_batch (files : FileTree) (settings : Settings) (source : Path) :
    let answer := run ⟨.new settings, ⟨files, []⟩⟩ source
    let outcome := Run.invocation files ⟨settings, .batch source⟩
    (∀ results, answer.2 = .ok results →
        outcome.exit = .ok 0 ∧ outcome.world.files = answer.1.world.files) ∧
      (∀ fault, answer.2 = .error fault → outcome.exit ≠ .ok 0) := by
  intro answer outcome
  have hexit : outcome.exit = (Run.command ⟨files, []⟩ settings (.batch source)).exit := rfl
  have hfiles : outcome.world.files =
      (Run.command ⟨files, []⟩ settings (.batch source)).world.files := rfl
  obtain ⟨hfault, hdone⟩ := Run.command_batch ⟨files, []⟩ settings source
  rw [hexit, hfiles]
  refine ⟨fun results h => ?_, fun fault h => ?_⟩
  · rw [hdone results h]
    exact ⟨rfl, rfl⟩
  · rw [hfault fault h, Outcome.ofFault]
    split_ifs
    · exact fun hzero => by cases hzero
    · exact fun hzero => by cases hzero

/-- A batch agrees with the evaluations of its expressions one run at a time. It ends well when the path
of the history is one on which the storage alone can fail; and whenever it ends well, the history and
every other entry but the results file are as the single runs leave them, and the results file holds one
line for each expression, in order, which tells what the single run tells, and marks exactly the refused
ones. -/
theorem batch_agrees {files : FileTree} {args : List String} {options : List GlobalOption}
    {settings : Settings} {source : Path} {es : List String} {l : Location}
    (hsettings : settingsOf options = .ok settings)
    (hargs : Invocation.ofArguments files args = .ok ⟨settings, .batch source⟩)
    (hread : readExpressions files source = .ok es) (hresults : ResultsAt files source l)
    (hapart : l ∉ History.footprint files settings.historyPath) :
    let evaluations := es.map fun e => commandArguments options "eval" [e]
    let runs := Run.sequence files evaluations
    let after := Run.filesAfterAll files evaluations
    ∃ batch, Run.arguments files args = .ok batch ∧
      (History.IsOrdinary settings.historyPath → batch.exit = .ok 0) ∧
      (batch.exit = .ok 0 →
        History.stored? batch.world.files settings.historyPath =
            History.stored? after settings.historyPath ∧
          (∀ m, m ≠ l → batch.world.files.get? m = after.get? m) ∧
          ∃ lines : List String,
            let text := Text.lined (lines.map String.toList)
            batch.world.files.get? l = some (.file (.plain (Text.utf8Encode text))) ∧
              Text.utf8Decode (Text.utf8Encode text) = .ok text ∧
              Text.lines text = lines.map String.toList ∧ lines.length = es.length ∧
              List.Forall₂ (fun x line => Reports x.1 x.2 line ∧
                (refusalMark <:+: line.toList ↔ ∃ e, Expression.evaluate x.1 = .error e))
                (es.zip runs) lines) := by
  intro evaluations runs after
  have hbatch : Run.arguments files args = .ok (Run.invocation files ⟨settings, .batch source⟩) := by
    rw [Run.arguments, hargs]
  obtain ⟨results, hpath, hlocate, hopen⟩ := hresults
  have hreach : l ∉ History.reach files settings.historyPath :=
    History.not_mem_reach hapart (not_mem_sides_of_resultsPath hpath hlocate)
  obtain ⟨opened, hwrite, hstart⟩ :=
    exists_write_inStep (AgreeOn.refl (· ≠ l) files) hlocate hopen hreach "".toList
  obtain ⟨d, hsession, rfl, hfault, hdone⟩ :=
    run_of_read (d := ⟨.new settings, ⟨files, []⟩⟩) hpath hread hwrite
  have hdesk : d.session.settings = settings := congrArg Session.settings hsession
  obtain ⟨hends, hfails⟩ := invocation_batch files settings source
  refine ⟨_, hbatch, ?_⟩
  rcases evaluateAll_inStep hsettings es hdesk hstart with
    ⟨hall, hin, hreports⟩ | ⟨⟨fault, herror⟩, hdeep⟩
  · obtain ⟨hanswer, hfiles⟩ := hdone hall
    obtain ⟨hexit, hbatchFiles⟩ := hends results hanswer
    refine ⟨fun _ => hexit, fun _ => ?_⟩
    rw [← hfiles, ← hbatchFiles] at hin
    have hlines : ∀ line ∈ (es.map fun e => lineOf e (Expression.evaluate e)).map String.toList,
        Text.IsLine line := by
      intro line hline
      obtain ⟨text, htext, rfl⟩ := List.mem_map.1 hline
      obtain ⟨e, he, rfl⟩ := List.mem_map.1 htext
      exact isLine_lineOf (isLine_of_readExpressions hread e he) _
    have hfoot : ∀ m ∈ History.footprint (Run.invocation files ⟨settings, .batch source⟩).world.files
        settings.historyPath, m ≠ l := by
      rintro m hm rfl
      exact hin.apart (History.footprint_subset_reach _ _ m hm)
    exact ⟨History.stored?_congr hin.agree hfoot, hin.agree.entry, _, hin.content,
      Text.utf8Decode_utf8Encode _, Text.lines_lined hlines, List.length_map _, hreports⟩
  · exact ⟨fun hp => absurd hp hdeep, fun hexit => absurd hexit (hfails fault (hfault fault herror))⟩

end Libraries

attribute [local instance] MathLibrary.ofSeries FileFormats.textual

theorem batch_agrees_of_two_lines :
    let files : FileTree := ⟨[(["w"], .directory),
      (["w", "sums.txt"], .file (.plain (Text.utf8Encode "1+1\n 2 3\n".toList)))], ["w"]⟩
    let options : List GlobalOption := [.historyFile "sums.db", .verbose]
    let settings : Settings := ⟨Path.ofString "sums.db", 20, .info, by decide, by decide⟩
    let evaluations := ["1+1", "2 3"].map fun e => commandArguments options "eval" [e]
    ∃ batch, Run.arguments files ["--db", "sums.db", "-v", "batch", "sums.txt"] = .ok batch ∧
      batch.exit = .ok 0 ∧
      History.stored? batch.world.files settings.historyPath =
        History.stored? (Run.filesAfterAll files evaluations) settings.historyPath := by
  intro files options settings evaluations
  have hsettings : settingsOf options = .ok settings := by decide +kernel
  have hargs : Invocation.ofArguments files ["--db", "sums.db", "-v", "batch", "sums.txt"] =
      .ok ⟨settings, .batch (Path.ofString "sums.txt")⟩ := by decide +kernel
  have hread : readExpressions files (Path.ofString "sums.txt") = .ok ["1+1", "2 3"] := by
    have hbytes : readExpressions files (Path.ofString "sums.txt") =
        decodeLines (Text.utf8Encode "1+1\n 2 3\n".toList) := rfl
    rw [hbytes, decodeLines, Text.utf8Decode_utf8Encode]
    decide +kernel
  have hresults : ResultsAt files (Path.ofString "sums.txt") ["w", "sums_txt_results.txt"] :=
    ⟨Path.ofString "sums_txt_results.txt", by decide +kernel, by decide +kernel, by decide +kernel⟩
  have hapart : ["w", "sums_txt_results.txt"] ∉ History.footprint files settings.historyPath :=
    History.not_mem_footprint (q := Path.ofString "sums.db") (by decide +kernel) (by decide +kernel)
      (by decide +kernel) (by decide +kernel) (by decide +kernel)
  obtain ⟨batch, hbatch, hexit, hagree⟩ := batch_agrees hsettings hargs hread hresults hapart
  have hzero := hexit (by decide +kernel)
  exact ⟨batch, hbatch, hzero, (hagree hzero).1⟩

end Batch
end Reckoner
