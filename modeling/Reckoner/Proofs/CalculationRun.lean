import Reckoner.Proofs.CommandArguments
import Reckoner.Proofs.HistoryFrame
import Reckoner.Proofs.LineText
import Reckoner.Run

/-! What a calculation does in a run. Its outcome decides what is shown, and what is shown decides the
exit code, since no number is shown as the error text; the files change by one insertion when it was
accepted, and not at all when it was refused (`conclusion`). Runs follow each other in the files that
the ones before have left. -/

namespace Reckoner

open FileTree

/-- What remains of a fault when those of the storage are logged alone. -/
def History.swallowed {α : Type} : Except HistoryFault α → Except HistoryFault Unit
  | .ok _ => .ok ()
  | .error fault => if fault.isStorage then .ok () else .error fault

/-- The end of a calculation, by what it does to the files alone. -/
def History.conclusion (t : FileTree) (p : Path) (input : String) :
    Except CalculationError Evaluation → FileTree × Except HistoryFault Unit
  | .error _ => (t, .ok ())
  | .ok evaluation =>
    ((insertion t p input evaluation.text).1, swallowed (insertion t p input evaluation.text).2)

/-- The result that is shown of a calculation. -/
def shownResult : Except CalculationError Evaluation → String
  | .error _ => Session.errorText
  | .ok evaluation => evaluation.text

def shownSteps : Except CalculationError Evaluation → List String
  | .error _ => []
  | .ok evaluation => evaluation.renderedSteps

namespace History

variable {P : Location → Prop} {t u : FileTree} {p : Path}

theorem conclusion_congr (h : AgreeOn P t u) (hreach : ∀ m ∈ reach t p, P m) (input : String)
    (outcome : Except CalculationError Evaluation) :
    AnswersAgree P (conclusion t p input outcome) (conclusion u p input outcome) := by
  cases outcome with
  | error e => exact h.answers
  | ok evaluation =>
      obtain ⟨hanswer, hagree⟩ := insertion_congr h hreach input evaluation.text
      exact ⟨congrArg swallowed hanswer, hagree⟩

theorem conclusion_extends (t : FileTree) (p : Path) (input : String)
    (outcome : Except CalculationError Evaluation) :
    Extends (reach t p) t (conclusion t p input outcome).1 := by
  cases outcome with
  | error e => exact Extends.refl _ t
  | ok evaluation => exact insertion_extends t p input evaluation.text

/-- A fault that a conclusion leaves is that of the insertion, and none of the storage. -/
theorem insertion_of_conclusion {input : String} {evaluation : Evaluation} {fault : HistoryFault}
    (h : (conclusion t p input (.ok evaluation)).2 = .error fault) :
    (insertion t p input evaluation.text).2 = .error fault ∧ fault.isStorage = false := by
  rw [conclusion] at h
  cases hinsert : (insertion t p input evaluation.text).2 with
  | ok record =>
      rw [hinsert] at h
      cases h
  | error fault' =>
      rw [hinsert] at h
      simp only [swallowed] at h
      split_ifs at h with hstorage
      cases h
      exact ⟨rfl, Bool.not_eq_true _ ▸ hstorage⟩

/-- On a path that is ordinary no conclusion leaves a fault, since those of the storage are logged alone. -/
theorem conclusion_ok (hp : IsOrdinary p) (t : FileTree) (input : String)
    (outcome : Except CalculationError Evaluation) : (conclusion t p input outcome).2 = .ok () := by
  cases outcome with
  | error e => rfl
  | ok evaluation =>
      cases h : (conclusion t p input (.ok evaluation)).2 with
      | ok done => rfl
      | error fault =>
          obtain ⟨hinsert, hstorage⟩ := insertion_of_conclusion h
          rcases fault_of_insertion hinsert with hstorage' | hdeep
          · rw [hstorage] at hstorage'
            cases hstorage'
          · exact absurd hp hdeep

end History

namespace Desk

/-- What storing does: to the files an insertion, to what is shown nothing. -/
theorem store_eq (d : Desk) (input result : String) :
    let p := d.session.settings.historyPath
    (d.store input result).1.world.files = (History.insertion d.world.files p input result).1 ∧
      (d.store input result).2 = History.swallowed (History.insertion d.world.files p input result).2 ∧
      (d.store input result).1.session.settings = d.session.settings ∧
      (d.store input result).1.session.result = d.session.result ∧
      (d.store input result).1.session.steps = d.session.steps := by
  intro p
  obtain ⟨hfiles, hanswer⟩ := History.insert_eq_insertion d.world p input result
  rw [store, ← hfiles, ← hanswer]
  rcases History.insert d.world p input result with ⟨w, fault | record⟩
  · by_cases hstorage : fault.isStorage = true
    · simp only [if_pos hstorage, History.swallowed, log, World.log, and_self]
    · simp only [if_neg hstorage, History.swallowed, and_self]
  · exact ⟨rfl, rfl, rfl, rfl, rfl⟩

/-- What the end of a calculation does to the files, and what it shows. -/
theorem conclude_eq (d : Desk) (input : String) (outcome : Except CalculationError Evaluation) :
    let p := d.session.settings.historyPath
    (d.conclude input outcome).1.world.files =
        (History.conclusion d.world.files p input outcome).1 ∧
      (d.conclude input outcome).2 =
        (History.conclusion d.world.files p input outcome).2.map (fun _ => outcome.toOption) ∧
      (d.conclude input outcome).1.session.settings = d.session.settings ∧
      (d.conclude input outcome).1.session.result = shownResult outcome ∧
      (d.conclude input outcome).1.session.steps = shownSteps outcome := by
  intro p
  cases outcome with
  | error e => exact ⟨rfl, rfl, rfl, rfl, rfl⟩
  | ok evaluation =>
      obtain ⟨hfiles, hanswer, hsettings, hresult, hsteps⟩ :=
        store_eq { d with session := d.session.showEvaluation evaluation } input evaluation.text
      simp only [conclude, History.conclusion]
      rcases hstore : Desk.store { d with session := d.session.showEvaluation evaluation } input
        evaluation.text with ⟨d', fault | ⟨⟩⟩
      · rw [hstore] at hfiles hanswer hsettings hresult hsteps
        exact ⟨hfiles, congrArg (Except.map fun _ => some evaluation) hanswer, hsettings, hresult,
          hsteps⟩
      · rw [hstore] at hfiles hanswer hsettings hresult hsteps
        exact ⟨hfiles, congrArg (Except.map fun _ => some evaluation) hanswer, hsettings, hresult,
          hsteps⟩

end Desk

theorem Evaluation.text_ne_errorText (e : Evaluation) : e.text ≠ Session.errorText := by
  intro h
  have hmem : 'r' ∈ e.value.display.toList := by
    change 'r' ∈ e.text.toList
    rw [h]
    decide
  exact Binary64.not_mem_display (by decide) (by decide) hmem

theorem Outcome.files_ofFault (w : World) (fault : RunFault) :
    (ofFault w fault).world.files = w.files := by
  rw [ofFault]
  split_ifs
  · rfl
  · rfl

/-- The first line of what a run prints. -/
def Outcome.firstLine (o : Outcome) : String :=
  String.ofList (o.output.toList.takeWhile (· != '\n'))

theorem Outcome.firstLine_of_isLine {o : Outcome} {line rest : String}
    (h : o.output = line ++ "\n" ++ rest) (hline : Text.IsLine line.toList) : o.firstLine = line := by
  have hpass : ∀ c ∈ line.toList, (c != '\n') = true := by
    intro c hc
    rw [bne_iff_ne]
    rintro rfl
    exact absurd (hline _ hc) (by decide)
  have hsplit : o.output.toList = line.toList ++ '\n' :: rest.toList := by
    rw [h, String.toList_append, String.toList_append, List.append_assoc]
    rfl
  rw [firstLine, hsplit, List.takeWhile_append_of_pos hpass, List.takeWhile_cons_of_neg (by decide),
    List.append_nil, String.ofList_toList]

namespace Run

/-- The exit code that a calculation ends with when no fault is left. -/
def exitCode : Except CalculationError Evaluation → Nat
  | .error _ => 1
  | .ok _ => 0

theorem exitCode_eq (outcome : Except CalculationError Evaluation) :
    (if shownResult outcome = Session.errorText then 1 else 0) = exitCode outcome := by
  cases outcome with
  | error e => rfl
  | ok evaluation => exact if_neg evaluation.text_ne_errorText

/-- The end of a calculation, by its outcome: the files are those of the conclusion; when that leaves no
fault, the exit code and all that is printed follow from the outcome alone; and the fault that it leaves
is the one that the run ends with. -/
theorem concludeCalculation_conclude (d : Desk) (input : String)
    (outcome : Except CalculationError Evaluation) :
    let conclusion := History.conclusion d.world.files d.session.settings.historyPath input outcome
    let run := concludeCalculation (d.conclude input outcome)
    run.world.files = conclusion.1 ∧
      (conclusion.2 = .ok () → run.exit = .ok (exitCode outcome) ∧
        run.output = shownResult outcome ++ "\n" ++ numberedSteps (shownSteps outcome)) ∧
      (∀ fault, conclusion.2 = .error fault → ∃ w, run = .ofFault w (.history fault)) := by
  intro conclusion run
  obtain ⟨hfiles, hanswer, -, hresult, hsteps⟩ := d.conclude_eq input outcome
  rcases hc : d.conclude input outcome with ⟨d', fault | shown⟩
  · rw [hc] at hfiles hanswer
    simp only [run, hc, concludeCalculation]
    refine ⟨?_, fun hok => ?_, fun fault' hfault => ⟨d'.world, ?_⟩⟩
    · rw [Outcome.files_ofFault]
      exact hfiles
    · have hnone : (Except.error fault : Except HistoryFault (Option Evaluation)) =
          conclusion.2.map fun _ => outcome.toOption := hanswer
      rw [hok] at hnone
      cases hnone
    · have hsome : (Except.error fault : Except HistoryFault (Option Evaluation)) =
          conclusion.2.map fun _ => outcome.toOption := hanswer
      rw [hfault] at hsome
      cases hsome
      rfl
  · rw [hc] at hfiles hanswer hresult hsteps
    simp only [run, hc, concludeCalculation]
    refine ⟨hfiles, fun _ => ⟨?_, ?_⟩, fun fault hfault => ?_⟩
    · rw [hresult, exitCode_eq]
    · rw [screenText, hresult, hsteps]
    · have hsome : (Except.ok shown : Except HistoryFault (Option Evaluation)) =
          conclusion.2.map fun _ => outcome.toOption := hanswer
      rw [hfault] at hsome
      cases hsome

section Libraries

variable [MathLibrary] [FileFormats]

/-! The other commands make one call, and end as it does. -/

theorem command_history (w : World) (s : Settings) (limit : Option Nat) :
    let call := History.recent w s.historyPath (limit.getD s.historyLimit)
    (∀ fault, call.2 = .error fault →
        command w s (.history limit) = .ofFault call.1 (.history fault)) ∧
      (∀ records, call.2 = .ok records →
        command w s (.history limit) = .ok call.1 (historyText records)) := by
  intro call
  rw [command]
  rcases hcall : History.recent w s.historyPath (limit.getD s.historyLimit) with ⟨w', x⟩
  simp only [call, hcall]
  constructor
  · rintro fault rfl
    rfl
  · rintro records rfl
    rfl

theorem command_clear (w : World) (s : Settings) :
    let call := History.clear w s.historyPath
    (∀ fault, call.2 = .error fault → command w s .clear = .ofFault call.1 (.history fault)) ∧
      (∀ count, call.2 = .ok count →
        command w s .clear =
          .ok call.1 ("Cleared " ++ toString count ++ " calculation(s)\n")) := by
  intro call
  rw [command, Desk.clearHistory]
  rcases hcall : History.clear w s.historyPath with ⟨w', x⟩
  simp only [call, hcall, Session.new]
  constructor
  · rintro fault rfl
    rfl
  · rintro count rfl
    rfl

theorem command_batch (w : World) (s : Settings) (source : Path) :
    let call := Batch.run ⟨.new s, w⟩ source
    (∀ fault, call.2 = .error fault →
        command w s (.batch source) = .ofFault call.1.world (.batch fault)) ∧
      (∀ results, call.2 = .ok results →
        command w s (.batch source) = .ok call.1.world (results.text ++ "\n")) := by
  intro call
  rw [command]
  rcases hcall : Batch.run ⟨.new s, w⟩ source with ⟨d, x⟩
  simp only [call, hcall]
  constructor
  · rintro fault rfl
    rfl
  · rintro results rfl
    rfl

theorem invocation_evaluate (files : FileTree) (settings : Settings) (expression : String) :
    let outcome := Expression.evaluate expression
    let conclusion := History.conclusion files settings.historyPath expression outcome
    let run := invocation files ⟨settings, .evaluate expression⟩
    run.world.files = conclusion.1 ∧
      (conclusion.2 = .ok () → run.exit = .ok (exitCode outcome) ∧
        run.output = shownResult outcome ++ "\n" ++ numberedSteps (shownSteps outcome)) := by
  obtain ⟨hfiles, hends, -⟩ := concludeCalculation_conclude
    ⟨{ Session.new settings with input := expression }, ⟨files, []⟩⟩ expression
    (Expression.evaluate expression)
  exact ⟨hfiles, hends⟩

theorem invocation_apply (files : FileTree) (settings : Settings) (function operand : String) :
    let outcome := UnaryFunction.apply function (Operand.parse operand)
    let conclusion := History.conclusion files settings.historyPath
      (function ++ "(" ++ operand ++ ")") outcome
    let run := invocation files ⟨settings, .apply function operand⟩
    run.world.files = conclusion.1 ∧
      (conclusion.2 = .ok () → run.exit = .ok (exitCode outcome) ∧
        run.output = shownResult outcome ++ "\n" ++ numberedSteps (shownSteps outcome)) := by
  obtain ⟨hfiles, hends, -⟩ := concludeCalculation_conclude
    ⟨{ Session.new settings with input := operand }, ⟨files, []⟩⟩ (function ++ "(" ++ operand ++ ")")
    (UnaryFunction.apply function (Operand.parse operand))
  exact ⟨hfiles, hends⟩

/-- The run of an evaluation by its arguments. -/
theorem arguments_evaluate {options : List Invocation.GlobalOption} {settings : Settings}
    (h : Invocation.settingsOf options = .ok settings) (files : FileTree) (expression : String) :
    arguments files (Invocation.commandArguments options "eval" [expression]) =
      .ok (invocation files ⟨settings, .evaluate expression⟩) := by
  rw [arguments, Invocation.ofArguments_evaluate, h]
  rfl

/-- The files after a run; arguments that are not taken leave them as they are. -/
def filesAfter (files : FileTree) (args : List String) : FileTree :=
  match arguments files args with
  | .error _ => files
  | .ok outcome => outcome.world.files

/-- Runs one after another, each in the files that the one before left. -/
def sequence (files : FileTree) : List (List String) → List (Except Rejection Outcome)
  | [] => []
  | args :: rest => arguments files args :: sequence (filesAfter files args) rest

/-- The files after runs one after another. -/
def filesAfterAll (files : FileTree) (runs : List (List String)) : FileTree :=
  runs.foldl filesAfter files

theorem filesAfter_evaluate {options : List Invocation.GlobalOption} {settings : Settings}
    (h : Invocation.settingsOf options = .ok settings) (files : FileTree) (expression : String) :
    filesAfter files (Invocation.commandArguments options "eval" [expression]) =
      (History.conclusion files settings.historyPath expression
        (Expression.evaluate expression)).1 := by
  rw [filesAfter, arguments_evaluate h]
  exact (invocation_evaluate files settings expression).1

end Libraries
end Run

end Reckoner
