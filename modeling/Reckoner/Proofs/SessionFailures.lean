import Mathlib.Data.List.Basic
import Reckoner.Proofs.SessionView

/-! Requests that fail, and what they leave alone. A refused calculation never comes to the history: its
whole answer is the same whatever the files are. A calculation that cannot be stored is shown all the
same, since it is shown before it is stored, and a request for the records changes the session only once it
has them. So each failure is either in the reply or in one logged message, and nothing else tells of it. -/

namespace Reckoner

open History

namespace Session

/-- The session with the expression of a request in the place of its input. -/
def enter (s : Session) : Request → Session
  | .calculate (some expression) => { s with input := expression }
  | _ => s

theorem enter_unchanged (s : Session) (request : Request) :
    (s.enter request).settings = s.settings ∧ (s.enter request).history = s.history ∧
      (s.enter request).scientific = s.scientific := by
  cases request with
  | calculate expression => cases expression <;> exact ⟨rfl, rfl, rfl⟩
  | _ => exact ⟨rfl, rfl, rfl⟩

end Session

namespace History

/-- An insertion that fails logs nothing. -/
theorem messages_of_insert_error {w : World} {p : Path} {input result : String} {fault : HistoryFault}
    (h : (insert w p input result).2 = .error fault) :
    (insert w p input result).1.messages = w.messages := by
  rw [insert] at h ⊢
  rcases hopen : openWritable w.files p with ⟨files, fault' | opened⟩
  · rfl
  · rw [hopen] at h
    cases h

theorem sameLedgers_of_insert_error {w : World} {p : Path} {input result : String}
    {fault : HistoryFault} (h : (insert w p input result).2 = .error fault) :
    SameLedgers w.files p (insert w p input result).1.files := by
  have hcall : (perform w p (.insert input result)).2 = .error fault := by
    change (insert w p input result).2.map Answer.inserted = _
    rw [h]
    rfl
  exact sameLedgers_of_error hcall

end History

namespace Desk

variable {d : Desk} {request : Request} {input : String} {fault : HistoryFault}

/-- The calculation that a request asks for, if it asks for one: the input that it is stored under, and
its outcome. -/
def calculation? [MathLibrary] (d : Desk) : Request → Option (String × Except CalculationError Evaluation)
  | .calculate expression =>
    let input := expression.getD d.session.input
    some (input, Expression.evaluate input)
  | .applyFunction name =>
    some (name ++ "(" ++ d.session.input ++ ")",
      UnaryFunction.apply name (Operand.parse d.session.input))
  | _ => none

theorem perform_calculation [MathLibrary] {outcome : Except CalculationError Evaluation}
    (h : d.calculation? request = some (input, outcome)) :
    d.perform request =
      replying .evaluation (conclude ⟨d.session.enter request, d.world⟩ input outcome) := by
  cases request with
  | calculate expression =>
      cases h
      cases expression <;> rfl
  | applyFunction name =>
      cases h
      rfl
  | _ => cases h

/-- The message of a calculation that is refused. -/
def refusalMessage (e : CalculationError) : Log.Message :=
  ⟨.warning, "🧮❌ " ++ e.kind ++ ": " ++ e.message⟩

/-- The message of a calculation that could not be stored. -/
def storeMessage (input : String) (fault : HistoryFault) : Log.Message :=
  ⟨.error, "💾❌ Could not store " ++ Text.quoted input ++ ": " ++ fault.message⟩

/-- A refused calculation is answered without the files. -/
theorem conclude_error (s : Session) (w : World) (input : String) (e : CalculationError) :
    conclude ⟨s, w⟩ input (.error e) =
      (⟨{ s with result := "Error", steps := [] }, ⟨w.files, w.messages ++ [refusalMessage e]⟩⟩,
        .ok none) :=
  rfl

/-- A storage that fails is logged, and nothing else comes of what was to be stored. -/
theorem store_of_fault {result : String}
    (h : (History.insert d.world d.session.settings.historyPath input result).2 = .error fault)
    (hstorage : fault.isStorage = true) :
    ∃ files, SameLedgers d.world.files d.session.settings.historyPath files ∧
      d.store input result = (⟨d.session, ⟨files, d.world.messages ++ [storeMessage input fault]⟩⟩, .ok ()) := by
  have hsame := sameLedgers_of_insert_error h
  have hmessages := messages_of_insert_error h
  rw [store]
  rcases hinsert : History.insert d.world d.session.settings.historyPath input result with
    ⟨w, fault' | record⟩
  · rw [hinsert] at h hsame hmessages
    cases h
    refine ⟨w.files, hsame, ?_⟩
    have hlogged : w.messages = d.world.messages := hmessages
    simp only [if_pos hstorage, log, World.log, ← hlogged]
    rfl
  · rw [hinsert] at h
    cases h

theorem loadHistory_of_fault
    (h : (History.recent d.world d.session.settings.historyPath
      d.session.settings.historyLimit).2 = .error fault) :
    d.loadHistory.2 = .error fault ∧ d.loadHistory.1.session = d.session ∧
      SameLedgers d.world.files d.session.settings.historyPath d.loadHistory.1.world.files := by
  have hsame := (recent_cases d.world d.session.settings.historyPath
    d.session.settings.historyLimit).1
  rw [loadHistory]
  rcases hrecent : History.recent d.world d.session.settings.historyPath
    d.session.settings.historyLimit with ⟨w, fault' | records⟩
  · rw [hrecent] at h hsame
    cases h
    exact ⟨rfl, rfl, hsame⟩
  · rw [hrecent] at h
    cases h

theorem clearHistory_of_fault
    (h : (History.clear d.world d.session.settings.historyPath).2 = .error fault) :
    d.clearHistory.2 = .error fault ∧ d.clearHistory.1.session = d.session ∧
      SameLedgers d.world.files d.session.settings.historyPath d.clearHistory.1.world.files := by
  have hcases := clear_cases d.world d.session.settings.historyPath
  rw [clearHistory]
  rcases hclear : History.clear d.world d.session.settings.historyPath with ⟨w, fault' | count⟩
  · rw [hclear] at h hcases
    cases h
    rcases hcases with ⟨_, -, -, hsame⟩ | ⟨hok, -⟩
    · exact ⟨rfl, rfl, hsame⟩
    · cases hok
  · rw [hclear] at h
    cases h

/-- What a failing request changes, at every desk. A refused calculation shows the error text and logs one
warning, on any files the same, and leaves them as they are. One that the storage fails to keep is
returned and shown, and logs one error; the records in view stay, and so do those of every ledger but for
files beside the session's own. And when the records cannot be loaded or cleared, the fault is the reply and
the session is as it was. -/
theorem failures_are_contained [MathLibrary] (d : Desk) (request : Request) :
    (∀ input e, d.calculation? request = some (input, .error e) →
      ∃ s, s.result = "Error" ∧ s.steps = [] ∧ s.history = d.session.history ∧
        s.scientific = d.session.scientific ∧ (refusalMessage e).level = .warning ∧
        ∀ files : FileTree, perform ⟨d.session, ⟨files, d.world.messages⟩⟩ request =
          (⟨s, ⟨files, d.world.messages ++ [refusalMessage e]⟩⟩, .ok (.evaluation none))) ∧
      (∀ input evaluation fault, d.calculation? request = some (input, .ok evaluation) →
        (History.insert d.world d.session.settings.historyPath input evaluation.text).2 =
          .error fault → fault.isStorage = true →
        let d' := (d.perform request).1
        (d.perform request).2 = .ok (.evaluation (some evaluation)) ∧
          d'.session.result = evaluation.text ∧ d'.session.steps = evaluation.renderedSteps ∧
          d'.session.history = d.session.history ∧ d'.session.scientific = d.session.scientific ∧
          SameLedgers d.world.files d.session.settings.historyPath d'.world.files ∧
          (storeMessage input fault).level = .error ∧
          d'.world.messages = d.world.messages ++ [storeMessage input fault]) ∧
      (∀ fault, (request = .loadHistory ∧ (History.recent d.world d.session.settings.historyPath
            d.session.settings.historyLimit).2 = .error fault ∨
          request = .clearHistory ∧
            (History.clear d.world d.session.settings.historyPath).2 = .error fault) →
        let d' := (d.perform request).1
        (d.perform request).2 = .error fault ∧ d'.session = d.session ∧
          SameLedgers d.world.files d.session.settings.historyPath d'.world.files) := by
  obtain ⟨hsettings, hhistory, hscientific⟩ := d.session.enter_unchanged request
  refine ⟨fun input e hcalculation => ?_, fun input evaluation fault hcalculation hfault hstorage => ?_, ?_⟩
  · refine ⟨{ d.session.enter request with result := "Error", steps := [] }, rfl, rfl, hhistory,
      hscientific, rfl, fun files => ?_⟩
    -- what is calculated is read off the session alone, so it is the same on other files
    have hsame : calculation? ⟨d.session, ⟨files, d.world.messages⟩⟩ request =
        some (input, .error e) := by
      rw [← hcalculation]
      cases request <;> rfl
    rw [perform_calculation hsame]
    exact congrArg (replying Reply.evaluation) (conclude_error _ _ input e)
  · intro d'
    rw [← hsettings] at hfault
    obtain ⟨files, hsame, hstore⟩ :=
      store_of_fault (d := ⟨(d.session.enter request).showEvaluation evaluation, d.world⟩) hfault hstorage
    have hperform : d.perform request =
        (⟨(d.session.enter request).showEvaluation evaluation,
          ⟨files, d.world.messages ++ [storeMessage input fault]⟩⟩,
          .ok (.evaluation (some evaluation))) := by
      rw [perform_calculation hcalculation, conclude, hstore]
      rfl
    change SameLedgers d.world.files (d.session.enter request).settings.historyPath files at hsame
    rw [hsettings] at hsame
    rw [show d' = _ from congrArg Prod.fst hperform, hperform]
    exact ⟨rfl, rfl, rfl, hhistory, hscientific, hsame, rfl, rfl⟩
  · rintro fault (⟨rfl, hfault⟩ | ⟨rfl, hfault⟩)
    · obtain ⟨hreply, hsession, hsame⟩ := loadHistory_of_fault hfault
      exact ⟨congrArg (Except.map Reply.records) hreply, hsession, hsame⟩
    · obtain ⟨hreply, hsession, hsame⟩ := clearHistory_of_fault hfault
      exact ⟨congrArg (Except.map Reply.count) hreply, hsession, hsame⟩

attribute [local instance] MathLibrary.ofSeries

theorem failures_are_contained_in_directory :
    let settings : Settings := ⟨Path.ofString "d", 20, .warning, by decide, by decide⟩
    let d : Desk :=
      performAll ⟨.new settings, ⟨⟨[(["w"], .directory), (["w", "d"], .directory)], ["w"]⟩, []⟩⟩
        [.toggleMode, .press "9"]
    let three : Evaluation := ⟨3, [.application "sqrt" 9 3]⟩
    (d.perform (.applyFunction "root")).1.session.result = "Error" ∧
      (d.perform (.applyFunction "root")).1.world.files = d.world.files ∧
      (d.perform (.applyFunction "sqrt")).2 = .ok (.evaluation (some three)) ∧
      (d.perform (.applyFunction "sqrt")).1.world.messages =
        [⟨.error, "💾❌ Could not store 'sqrt(9)': unable to open database file"⟩] ∧
      (d.perform .clearHistory).2 = .error .notOpened ∧
      (d.perform .clearHistory).1.session = d.session := by
  intro settings d three
  obtain ⟨s, hresult, -, -, -, -, hperform⟩ :=
    (failures_are_contained d (.applyFunction "root")).1 "root(9)" (.unknownFunction "root")
      (by decide +kernel)
  have hrefused : d.perform (.applyFunction "root") = _ := hperform d.world.files
  obtain ⟨hreply, -, -, -, -, -, -, hmessages⟩ :=
    (failures_are_contained d (.applyFunction "sqrt")).2.1 "sqrt(9)" three .notOpened
      (by decide +kernel) (by decide +kernel) rfl
  obtain ⟨hfault, hsession, -⟩ :=
    (failures_are_contained d .clearHistory).2.2 .notOpened (Or.inr ⟨rfl, by decide +kernel⟩)
  refine ⟨?_, ?_, hreply, hmessages.trans (by decide +kernel), hfault, hsession⟩
  · rw [hrefused]
    exact hresult
  · rw [hrefused]

end Desk
end Reckoner
