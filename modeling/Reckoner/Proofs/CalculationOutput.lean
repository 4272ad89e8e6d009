import Reckoner.Files.TextFormats
import Reckoner.Proofs.ExitCodes
import Reckoner.Proofs.InfixGrammar

/-! The output of a calculation. Arguments that ask for a calculation are taken or not whatever the files
are, and a failing storage takes nothing away from what is shown. The run ends otherwise when storing fails
for what is no fault of the storage, which on an ordinary path it never does; there, two runs in any two
trees end alike (`calculation_output`). What they print is read off the outcome line by line, since no
number, operator or function name holds a line break. -/

namespace Reckoner

theorem Operator.isLine_symbol (op : Operator) :
    Text.IsLine (String.singleton op.symbol).toList := by
  cases op <;> exact Text.isLine_of_all (by decide)

theorem Step.isLine_operation (x : Binary64) (op : Operator) (y r : Binary64) :
    Text.IsLine (Step.operation x op y r).render.toList := by
  have hspace : Text.IsLine " ".toList := Text.isLine_of_all (by decide)
  have hequals : Text.IsLine " = ".toList := Text.isLine_of_all (by decide)
  simp only [render, String.toList_append, Text.isLine_append]
  exact ⟨⟨⟨⟨⟨⟨x.isLine_display, hspace⟩, op.isLine_symbol⟩, hspace⟩, y.isLine_display⟩, hequals⟩,
    r.isLine_display⟩

theorem Step.isLine_application {function : String} (h : Text.IsLine function.toList) (x r : Binary64) :
    Text.IsLine (Step.application function x r).render.toList := by
  have hopening : Text.IsLine "(".toList := Text.isLine_of_all (by decide)
  have hclosing : Text.IsLine ") = ".toList := Text.isLine_of_all (by decide)
  simp only [render, String.toList_append, Text.isLine_append]
  exact ⟨⟨⟨⟨h, hopening⟩, x.isLine_display⟩, hclosing⟩, r.isLine_display⟩

theorem UnaryFunction.isLine_of_ofName? {name : String} {f : UnaryFunction}
    (h : ofName? name = some f) : Text.IsLine name.toList := by
  have hnames : ∀ entry ∈ names, Text.IsLine entry.1.toList := by
    have hall : names.all (fun entry => entry.1.toList.all fun c => !Text.isLineBreak c) = true := by
      decide
    exact fun entry hentry => Text.isLine_of_all (List.all_eq_true.1 hall entry hentry)
  obtain ⟨entry, hfind, -⟩ := Option.map_eq_some_iff.1 h
  have hmatch := List.find?_some hfind
  have hname : entry.1 = name := of_decide_eq_true hmatch
  rw [← hname]
  exact hnames entry (List.mem_of_find?_eq_some hfind)

namespace Command

variable [MathLibrary]

/-- The calculation that a command asks for, if it asks for one: the text that it is stored under, and its
outcome. -/
def calculation? : Command → Option (String × Except CalculationError Evaluation)
  | evaluate expression => some (expression, Expression.evaluate expression)
  | apply function operand =>
    some (function ++ "(" ++ operand ++ ")", UnaryFunction.apply function (Operand.parse operand))
  | _ => none

/-- The steps of a calculation are written on one line each. -/
theorem isLine_of_mem_renderedSteps {c : Command} {input : String} {evaluation : Evaluation}
    (h : c.calculation? = some (input, .ok evaluation)) {step : String}
    (hstep : step ∈ evaluation.renderedSteps) : Text.IsLine step.toList := by
  obtain ⟨done, hdone, rfl⟩ := List.mem_map.1 hstep
  cases c with
  | evaluate expression =>
      have hevaluate : Expression.evaluate expression = .ok evaluation :=
        (Prod.ext_iff.1 (Option.some.inj h)).2
      obtain ⟨x, op, y, rfl⟩ := Expression.exists_operation_of_evaluate hevaluate hdone
      exact Step.isLine_operation x op y _
  | apply function operand =>
      have happly : UnaryFunction.apply function (Operand.parse operand) = .ok evaluation :=
        (Prod.ext_iff.1 (Option.some.inj h)).2
      rw [UnaryFunction.apply] at happly
      cases hname : UnaryFunction.ofName? function with
      | none =>
          rw [hname] at happly
          cases happly
      | some f =>
          rw [hname] at happly
          cases happly
          rw [List.mem_singleton.1 hdone]
          exact Step.isLine_application (UnaryFunction.isLine_of_ofName? hname) _ _
  | history limit => cases h
  | clear => cases h
  | batch source => cases h

end Command

namespace Invocation

variable [MathLibrary]

/-- What a command other than a batch is checked for does not depend on the files. -/
theorem checkCommand_of_calculation {start : FileTree} {draft : CommandDraft} {c : Command}
    (h : checkCommand start draft = .ok c) (hcommand : c.calculation?.isSome = true) (t : FileTree) :
    checkCommand t draft = .ok c := by
  cases draft with
  | batch source =>
      simp only [checkCommand] at h
      split at h
      · cases h
      · split at h
        · cases h
        · cases h
          cases hcommand
        · cases h
  | evaluate expression => exact h
  | apply function operand => exact h
  | history limit => cases limit <;> exact h
  | clear => exact h

theorem ofArguments_of_calculation {start : FileTree} {args : List String} {i : Invocation}
    (h : ofArguments start args = .ok i) (hcommand : i.command.calculation?.isSome = true)
    (t : FileTree) : ofArguments t args = .ok i := by
  rw [ofArguments] at h ⊢
  cases hdraft : readDraft args with
  | error refusal =>
      rw [hdraft] at h
      cases h
  | ok draft =>
      simp only [hdraft, ofDraft] at h ⊢
      cases hsettings : checkSettings draft with
      | error complaints =>
          rw [hsettings] at h
          cases h
      | ok settings =>
          simp only [hsettings] at h ⊢
          cases hchecked : checkCommand start draft.command with
          | error rejection =>
              rw [hchecked] at h
              cases h
          | ok c =>
              rw [hchecked] at h
              cases h
              rw [checkCommand_of_calculation hchecked hcommand t]
              rfl

end Invocation

namespace Run

/-- The lines of a calculation that was accepted: the result, and under it the steps numbered from one. -/
def evaluationLines (evaluation : Evaluation) : List (List Char) :=
  evaluation.text.toList ::
    evaluation.renderedSteps.zipIdx.map fun (step, i) =>
      ("  " ++ toString (i + 1) ++ ". " ++ step).toList

theorem toList_numberedSteps (steps : List String) :
    (numberedSteps steps).toList =
      Text.lined (steps.zipIdx.map fun (step, i) =>
        ("  " ++ toString (i + 1) ++ ". " ++ step).toList) := by
  rw [numberedSteps, String.toList_join, Text.lined, List.flatMap_map, List.flatMap_map]
  refine List.flatMap_congr fun entry _ => ?_
  rw [String.toList_append]
  rfl

theorem isLine_evaluationLines {evaluation : Evaluation}
    (h : ∀ step ∈ evaluation.renderedSteps, Text.IsLine step.toList) :
    ∀ line ∈ evaluationLines evaluation, Text.IsLine line := by
  have hmargin : Text.IsLine "  ".toList := Text.isLine_of_all (by decide)
  have hpoint : Text.IsLine ". ".toList := Text.isLine_of_all (by decide)
  intro line hline
  rcases List.mem_cons.1 hline with rfl | hline
  · exact evaluation.value.isLine_display
  · obtain ⟨⟨step, i⟩, hentry, rfl⟩ := List.mem_map.1 hline
    have hstep := h step (List.fst_mem_of_mem_zipIdx hentry)
    have hnumber : Text.IsLine (toString (i + 1)).toList := by
      change Text.IsLine (i + 1).repr.toList
      rw [Nat.toList_repr]
      exact Text.isLine_toDigits (i + 1)
    simp only [String.toList_append, Text.isLine_append]
    exact ⟨⟨⟨hmargin, hnumber⟩, hpoint⟩, hstep⟩

section Libraries

variable [MathLibrary] [FileFormats]

/-- What a run that calculates does when storing has ended in some way: a fault that is left obstructs it, and
without one its outcome alone decides what it prints. -/
theorem invocation_calculation {i : Invocation} {input : String}
    {outcome : Except CalculationError Evaluation} (hcommand : i.command.calculation? = some (input, outcome))
    (files : FileTree) :
    let stored := History.conclusion files i.settings.historyPath input outcome
    (stored.2 = .ok () → (invocation files i).exit = .ok (exitCode outcome) ∧
        (invocation files i).output = shownResult outcome ++ "\n" ++ numberedSteps (shownSteps outcome)) ∧
      ∀ fault, stored.2 = .error fault → Obstructs files i.settings i.command (.history fault) := by
  obtain ⟨settings, c⟩ := i
  cases c with
  | evaluate expression =>
      cases hcommand
      exact ⟨(invocation_evaluate files settings input).2, fun _ => .evaluation⟩
  | apply function operand =>
      cases hcommand
      exact ⟨(invocation_apply files settings function operand).2, fun _ => .application⟩
  | history limit => cases hcommand
  | clear => cases hcommand
  | batch source => cases hcommand

/-- What is printed of a calculation, line by line. -/
theorem lines_of_output {i : Invocation} {input : String} {evaluation : Evaluation} {output : String}
    (hcommand : i.command.calculation? = some (input, .ok evaluation))
    (h : output = evaluation.text ++ "\n" ++ numberedSteps evaluation.renderedSteps) :
    output.toList = Text.lined (evaluationLines evaluation) ∧
      Text.lines output.toList = evaluationLines evaluation := by
  have hlined : output.toList = Text.lined (evaluationLines evaluation) := by
    rw [h, evaluationLines, Text.lined_cons, String.toList_append, String.toList_append,
      toList_numberedSteps, List.append_assoc]
    rfl
  refine ⟨hlined, ?_⟩
  rw [hlined, Text.lines_lined]
  exact isLine_evaluationLines fun step hstep => Command.isLine_of_mem_renderedSteps hcommand hstep

/-- Arguments that ask for a calculation are taken in every tree. A refused calculation ends with one and
prints the error text alone. One that is accepted ends with zero and prints its result and, below it, each
step on a line with its number, unless it is stored with a fault that is none of the storage: then the run
ends with that fault. On an ordinary path there is no such fault, and so the exit code and the output are
the same in any two trees. -/
theorem calculation_output {start : FileTree} {args : List String} {i : Invocation} {input : String}
    {outcome : Except CalculationError Evaluation} (htaken : Invocation.ofArguments start args = .ok i)
    (hcommand : i.command.calculation? = some (input, outcome)) :
    let stored := fun (t : FileTree) (evaluation : Evaluation) =>
      (History.insert ⟨t, []⟩ i.settings.historyPath input evaluation.text).2
    (∀ t, ∃ run, arguments t args = .ok run ∧
      (∀ error, outcome = .error error → run.exit = .ok 1 ∧ run.output = "Error\n") ∧
      ∀ evaluation, outcome = .ok evaluation →
        ((∀ fault, stored t evaluation = .error fault → fault.isStorage = true) →
          run.exit = .ok 0 ∧ run.output.toList = Text.lined (evaluationLines evaluation) ∧
            Text.lines run.output.toList = evaluationLines evaluation) ∧
        ∀ fault, stored t evaluation = .error fault → fault.isStorage = false →
          ((RunFault.history fault).isReported = true →
            run.exit = .ok 2 ∧ run.output = "error: " ++ fault.message ++ "\n") ∧
          ((RunFault.history fault).isReported = false →
            run.exit = .error (.history fault) ∧ run.output = "")) ∧
    (History.IsOrdinary i.settings.historyPath →
      (∀ t evaluation fault, stored t evaluation = .error fault → fault.isStorage = true) ∧
      ∀ t u, ∃ run run', arguments t args = .ok run ∧ arguments u args = .ok run' ∧
        run'.exit = run.exit ∧ run'.output = run.output) := by
  intro stored
  have hruns : ∀ files : FileTree, arguments files args = .ok (invocation files i) := by
    intro files
    have hsome : i.command.calculation?.isSome = true := by rw [hcommand, Option.isSome_some]
    rw [arguments, Invocation.ofArguments_of_calculation htaken hsome files]
  have hinsert : ∀ t evaluation, stored t evaluation =
      (History.insertion t i.settings.historyPath input evaluation.text).2 :=
    fun t evaluation => (History.insert_eq_insertion ⟨t, []⟩ _ _ _).2
  refine ⟨fun t => ⟨_, hruns t, ?_, ?_⟩, fun hordinary => ⟨fun t evaluation fault hfault => ?_, fun t u => ?_⟩⟩
  · rintro error rfl
    exact (invocation_calculation hcommand t).1 rfl
  · rintro evaluation rfl
    obtain ⟨hends, hobstructs⟩ := invocation_calculation hcommand t
    simp only [History.conclusion, ← hinsert] at hends hobstructs
    refine ⟨fun hstorage => ?_, fun fault hfault hstorage => ?_⟩
    · have hswallowed : History.swallowed (stored t evaluation) = .ok () := by
        cases hstored : stored t evaluation with
        | ok record => rfl
        | error fault => exact if_pos (hstorage fault hstored)
      obtain ⟨hexit, houtput⟩ := hends hswallowed
      exact ⟨hexit, lines_of_output hcommand houtput⟩
    · refine (hobstructs fault ?_).invocation_ends
      rw [hfault]
      exact if_neg (Bool.eq_false_iff.1 hstorage)
  · rw [hinsert] at hfault
    exact (History.fault_of_insertion hfault).resolve_right fun hnot => hnot hordinary
  · obtain ⟨hexit, houtput⟩ :=
      (invocation_calculation hcommand t).1 (History.conclusion_ok hordinary t _ _)
    obtain ⟨hexit', houtput'⟩ :=
      (invocation_calculation hcommand u).1 (History.conclusion_ok hordinary u _ _)
    exact ⟨_, _, hruns t, hruns u, hexit'.trans hexit.symm, houtput'.trans houtput.symm⟩

end Libraries

attribute [local instance] MathLibrary.ofSeries FileFormats.textual

theorem calculation_output_of_unusable_store :
    let absent : FileTree := ⟨[(["w"], .directory)], ["w"]⟩
    let blocked : FileTree :=
      ⟨[(["w"], .directory), (["w", "d"], .file (.plain (Text.utf8Encode "notes".toList)))], ["w"]⟩
    let args := ["--db", "d/sums.db", "eval", "1+2*3"]
    ∃ run run', arguments absent args = .ok run ∧ arguments blocked args = .ok run' ∧
      run'.exit = run.exit ∧ run'.output = run.output ∧ run.exit = .ok 0 ∧
      run.output = "7\n  1. 2 * 3 = 6\n  2. 1 + 6 = 7\n" := by
  intro absent blocked args
  let settings : Settings := ⟨Path.ofString "d/sums.db", 20, .warning, by decide, by decide⟩
  have htaken : Invocation.ofArguments absent args = .ok ⟨settings, .evaluate "1+2*3"⟩ := by
    decide +kernel
  let evaluation : Evaluation := ⟨7, [.operation 2 .mul 3 6, .operation 1 .add 6 7]⟩
  have hcalculation : (Command.evaluate "1+2*3").calculation? = some ("1+2*3", .ok evaluation) := by
    decide +kernel
  obtain ⟨hends, hordinary⟩ := calculation_output htaken hcalculation
  obtain ⟨hstorage, hsame⟩ := hordinary (by decide +kernel)
  obtain ⟨run, run', hrun, hrun', hexit, houtput⟩ := hsame absent blocked
  obtain ⟨run'', hrun'', -, haccepted⟩ := hends absent
  cases hrun''.symm.trans hrun
  obtain ⟨hzero, hlines, -⟩ := (haccepted evaluation rfl).1 (hstorage absent evaluation)
  have htext : run.output.toList = "7\n  1. 2 * 3 = 6\n  2. 1 + 6 = 7\n".toList := by
    rw [hlines]
    decide +kernel
  exact ⟨run, run', hrun, hrun', hexit, houtput, hzero, String.toList_injective htext⟩

end Run

end Reckoner
