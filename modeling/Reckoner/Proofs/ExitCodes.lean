import Mathlib.Tactic.Common
import Reckoner.Proofs.BatchAgreement
import Reckoner.Proofs.LedgerView
import Reckoner.Proofs.ResultsNames

/-! How runs end. What keeps a run from its work (`Obstructs`) is a fault of some class. One of the classes that
the end of a run handles is told in one line of error, with exit code two; any other leaves the run without an
exit code and with nothing printed. All faults of the history and of a source are told but three: that of a limit
that is too large, that of a path with too many missing directories, and what a library of archives raises of a
class of its own. Without an obstruction the exit code is zero or one. -/

namespace Reckoner

open FileTree History

namespace Run

section Libraries

variable [MathLibrary] [FileFormats]

/-- What keeps a run from its work: the history cannot be read or cleared, the path to it holds what no
insertion takes, or the batch is not done. A calculation is not kept from its work by a failing storage. -/
inductive Obstructs (files : FileTree) (s : Settings) : Command → RunFault → Prop
  | evaluation {expression : String} {fault : HistoryFault} :
      (conclusion files s.historyPath expression (Expression.evaluate expression)).2 =
        .error fault → Obstructs files s (.evaluate expression) (.history fault)
  | application {function operand : String} {fault : HistoryFault} :
      (conclusion files s.historyPath (function ++ "(" ++ operand ++ ")")
        (UnaryFunction.apply function (Operand.parse operand))).2 = .error fault →
      Obstructs files s (.apply function operand) (.history fault)
  | query {limit : Option Nat} {fault : HistoryFault} :
      (History.recent ⟨files, []⟩ s.historyPath (limit.getD s.historyLimit)).2 = .error fault →
      Obstructs files s (.history limit) (.history fault)
  | clearing {fault : HistoryFault} :
      (History.clear ⟨files, []⟩ s.historyPath).2 = .error fault →
      Obstructs files s .clear (.history fault)
  | batch {source : Path} {fault : BatchFault} :
      (Batch.run ⟨.new s, ⟨files, []⟩⟩ source).2 = .error fault →
      Obstructs files s (.batch source) (.batch fault)

variable {files : FileTree} {s : Settings} {c : Command} {i : Invocation} {fault : RunFault}

theorem Obstructs.command_eq (h : Obstructs files s c fault) :
    ∃ w, command ⟨files, []⟩ s c = .ofFault w fault := by
  cases h with
  | @evaluation expression fault h =>
      exact (concludeCalculation_conclude
        ⟨{ Session.new s with input := expression }, ⟨files, []⟩⟩ _ _).2.2 fault h
  | @application function operand fault h =>
      exact (concludeCalculation_conclude
        ⟨{ Session.new s with input := operand }, ⟨files, []⟩⟩ _ _).2.2 fault h
  | @query limit fault h => exact ⟨_, (command_history _ s limit).1 fault h⟩
  | @clearing fault h => exact ⟨_, (command_clear _ s).1 fault h⟩
  | @batch source fault h => exact ⟨_, (command_batch _ s source).1 fault h⟩

theorem command_of_unobstructed (h : ∀ fault, ¬ Obstructs files s c fault) :
    ∃ code ≤ 1, (command ⟨files, []⟩ s c).exit = .ok code := by
  have hcode : ∀ outcome : Except CalculationError Evaluation, exitCode outcome ≤ 1
    | .error _ => Nat.le_refl 1
    | .ok _ => Nat.zero_le 1
  cases c with
  | evaluate expression =>
      cases hconclusion : (conclusion files s.historyPath expression
        (Expression.evaluate expression)).2 with
      | error fault => exact absurd (.evaluation hconclusion) (h _)
      | ok done =>
          exact ⟨_, hcode _, ((concludeCalculation_conclude
            ⟨{ Session.new s with input := expression }, ⟨files, []⟩⟩ _ _).2.1 hconclusion).1⟩
  | apply function operand =>
      cases hconclusion : (conclusion files s.historyPath (function ++ "(" ++ operand ++ ")")
        (UnaryFunction.apply function (Operand.parse operand))).2 with
      | error fault => exact absurd (.application hconclusion) (h _)
      | ok done =>
          exact ⟨_, hcode _, ((concludeCalculation_conclude
            ⟨{ Session.new s with input := operand }, ⟨files, []⟩⟩ _ _).2.1 hconclusion).1⟩
  | history limit =>
      cases hcall : (History.recent ⟨files, []⟩ s.historyPath (limit.getD s.historyLimit)).2 with
      | error fault => exact absurd (.query hcall) (h _)
      | ok records =>
          rw [(command_history _ s limit).2 records hcall]
          exact ⟨0, Nat.zero_le 1, rfl⟩
  | clear =>
      cases hcall : (History.clear ⟨files, []⟩ s.historyPath).2 with
      | error fault => exact absurd (.clearing hcall) (h _)
      | ok count =>
          rw [(command_clear _ s).2 count hcall]
          exact ⟨0, Nat.zero_le 1, rfl⟩
  | batch source =>
      cases hcall : (Batch.run ⟨.new s, ⟨files, []⟩⟩ source).2 with
      | error fault => exact absurd (.batch hcall) (h _)
      | ok results =>
          rw [(command_batch _ s source).2 results hcall]
          exact ⟨0, Nat.zero_le 1, rfl⟩

/-- An obstruction that is told ends the run with exit code two and its message; one that is not told is
left to the caller, and nothing is printed. -/
theorem Obstructs.invocation_ends (h : Obstructs files i.settings i.command fault) :
    (fault.isReported = true → (invocation files i).exit = .ok 2 ∧
        (invocation files i).output = "error: " ++ fault.message ++ "\n") ∧
      (fault.isReported = false → (invocation files i).exit = .error fault ∧
        (invocation files i).output = "") := by
  obtain ⟨w, hcommand⟩ := h.command_eq
  have hexit : (invocation files i).exit = (Outcome.ofFault w fault).exit := by
    rw [← hcommand]
    rfl
  have houtput : (invocation files i).output = (Outcome.ofFault w fault).output := by
    rw [← hcommand]
    rfl
  rw [hexit, houtput, Outcome.ofFault]
  refine ⟨fun hreported => ?_, fun hreported => ?_⟩
  · rw [if_pos hreported]
    exact ⟨rfl, rfl⟩
  · rw [if_neg (Bool.eq_false_iff.1 hreported)]
    exact ⟨rfl, rfl⟩

theorem obstructs_source {source : Path} {f : SourceFault} (hname : source.name ≠ "")
    (h : Batch.readExpressions files source = .error f) :
    Obstructs files s (.batch source) (.batch (.source f)) := by
  refine .batch ?_
  rw [Batch.run, Batch.resultsPath, if_neg hname]
  simp only [h]

/-- A limit that is too large obstructs a query of a history that can be opened. -/
theorem obstructs_limit {n : Nat} {opened : Opened} (hlimit : maxLimit < n)
    (hopened : (openLedger files s.historyPath).2 = .ok opened) :
    Obstructs files s (.history (some n)) (.history .limitTooLarge) := by
  refine .query ?_
  rcases (recent_cases ⟨files, []⟩ s.historyPath n).2 with ⟨hsmall, -⟩ | ⟨-, fault, hfault, -⟩ |
    ⟨-, opened', -, hrecent⟩
  · rw [maxLimit] at hlimit
    omega
  · rw [hopened] at hfault
    cases hfault
  · rw [if_pos hlimit] at hrecent
    exact hrecent

/-- A source that is not read obstructs its batch, and so does the lack of a name for its results. -/
theorem exists_obstructs_of_unread {source : Path} {f : SourceFault}
    (h : Batch.readExpressions files source = .error f) :
    ∃ fault, Obstructs files s (.batch source) fault ∧
      (source.name ≠ "" → fault = .batch (.source f)) := by
  by_cases hname : source.name = ""
  · refine ⟨.batch (.noName source), .batch ?_, fun hne => absurd hname hne⟩
    rw [Batch.run, Batch.resultsPath, if_pos hname]
  · exact ⟨_, obstructs_source hname h, fun _ => rfl⟩

/-! Which faults are told. -/

theorem isReported_history_eq_false_iff {f : HistoryFault} :
    (RunFault.history f).isReported = false ↔ f = .limitTooLarge ∨ f = .tooDeep := by
  have htold : (RunFault.history f).isReported = true → f ≠ .limitTooLarge → f ≠ .tooDeep →
      ((RunFault.history f).isReported = false ↔ f = .limitTooLarge ∨ f = .tooDeep) := by
    intro hreported hlimit hdeep
    rw [hreported]
    exact ⟨fun h => (by cases h), fun h => absurd h (not_or.2 ⟨hlimit, hdeep⟩)⟩
  cases f with
  | limitTooLarge | tooDeep => decide
  | file fault =>
      refine htold ?_ HistoryFault.noConfusion HistoryFault.noConfusion
      cases fault <;> rfl
  | address | notOpened | notReadable | notLedger | notWritable | locked | nullCharacter | limitTooSmall =>
      exact htold rfl HistoryFault.noConfusion HistoryFault.noConfusion

theorem isReported_source {f : SourceFault} (h : ∀ l, f ≠ .library l) :
    (RunFault.batch (.source f)).isReported = true := by
  cases f with
  | file fault => cases fault <;> rfl
  | library l => exact absurd rfl (h l)
  | unsupported | noTextFile | notUtf8 => rfl

/-- How a run ends whose arguments are taken. An obstruction whose class the end of a run handles gives exit
code two and one line with its message, and any other is left to the caller with nothing printed; without an
obstruction the exit code is zero or one. A source that is not read obstructs its batch, and a limit that is too
large the query of a history that can be opened. All faults of a history are told but that of the limit and that
of missing directories, and all of a source but those of a library, which are told when they are of a class that
is handled. -/
theorem run_ends {args : List String} (h : Invocation.ofArguments files args = .ok i) :
    ∃ o, Run.arguments files args = .ok o ∧
      (∀ fault, Obstructs files i.settings i.command fault →
        (fault.isReported = true → o.exit = .ok 2 ∧ o.output = "error: " ++ fault.message ++ "\n") ∧
        (fault.isReported = false → o.exit = .error fault ∧ o.output = "")) ∧
      ((∀ fault, ¬ Obstructs files i.settings i.command fault) → ∃ code ≤ 1, o.exit = .ok code) ∧
      (∀ source f, i.command = .batch source → Batch.readExpressions files source = .error f →
        ∃ fault, Obstructs files i.settings i.command fault ∧
          (source.name ≠ "" → fault = .batch (.source f))) ∧
      (∀ (n : Nat) opened, i.command = .history (some n) → maxLimit < n →
        (openLedger files i.settings.historyPath).2 = .ok opened →
        Obstructs files i.settings i.command (.history .limitTooLarge)) ∧
      (∀ f, (RunFault.history f).isReported = false ↔ f = .limitTooLarge ∨ f = .tooDeep) ∧
      ((∀ l, (RunFault.batch (.source (.library l))).isReported =
          l.faultClass.isHandledBy [.value, .storage, .system]) ∧
        ∀ f, (∀ l, f ≠ .library l) → (RunFault.batch (.source f)).isReported = true) := by
  refine ⟨invocation files i, ?_, fun fault hobstructs => hobstructs.invocation_ends,
    fun hfree => command_of_unobstructed hfree, fun source f hc hread => ?_,
    fun n opened hc hlimit hopened => ?_, fun f => isReported_history_eq_false_iff,
    ⟨fun l => rfl, fun f => isReported_source⟩⟩
  · rw [Run.arguments, h]
  · rw [hc]
    exact exists_obstructs_of_unread hread
  · rw [hc]
    exact obstructs_limit hlimit hopened

end Libraries

attribute [local instance] MathLibrary.ofSeries FileFormats.textual

theorem run_ends_of_unsupported_source :
    let files : FileTree :=
      ⟨[(["w"], .directory), (["w", "sums.csv"], .file (.plain (Text.utf8Encode "1+1".toList)))], ["w"]⟩
    let args := ["batch", "sums.csv"]
    ∃ i, Invocation.ofArguments files args = .ok i ∧
      ∃ o, Run.arguments files args = .ok o ∧ o.exit = .ok 2 ∧
        o.output = "error: 📄❌ Unsupported archive format: .csv\n" := by
  intro files args
  let settings : Settings := ⟨Path.ofString "calculator.db", 20, .warning, by decide, by decide⟩
  have hargs : Invocation.ofArguments files args =
      .ok ⟨settings, .batch (Path.ofString "sums.csv")⟩ := by decide +kernel
  obtain ⟨o, hrun, hends, -⟩ := run_ends hargs
  have hobstructs : Obstructs files settings (.batch (Path.ofString "sums.csv"))
      (.batch (.source (.unsupported ".csv"))) := obstructs_source (by decide) (by decide +kernel)
  obtain ⟨hexit, houtput⟩ := (hends _ hobstructs).1 rfl
  exact ⟨_, hargs, o, hrun, hexit, houtput.trans (by decide +kernel)⟩

/-- Faults that escape: of a file that is no archive, and of a limit that is too large. -/
theorem run_ends_without_exit :
    let files : FileTree :=
      ⟨[(["w"], .directory), (["w", "g.zip"], .file (.plain (Text.utf8Encode "garbage".toList)))], ["w"]⟩
    ((Run.arguments files ["batch", "g.zip"]).map fun o => (o.exit, o.output)) =
        .ok (.error (.batch (.source (.library ⟨⟨"BadZipFile", ["Exception"]⟩, "File is not a zip file"⟩))),
          "") ∧
      ((Run.arguments files ["history", "--limit", "9223372036854775808"]).map fun o =>
          (o.exit, o.output)) =
        .ok (.error (.history .limitTooLarge), "") := by
  decide +kernel

end Run
end Reckoner
