import Mathlib.Data.List.Induction
import Reckoner.Proofs.CalculationRun
import Reckoner.Proofs.InfixGrammar
import Reckoner.Proofs.SessionRecords

/-! What a session displays. The result and the steps are written together, and in three ways only: they
are emptied, a refusal puts the error text in their place, and a calculation shows its evaluation
(`displayed_perform`). Every other request leaves them alone, whether it fails or not. So what is displayed
is always empty, the error text, or one evaluation of the present session; and the last step of an
evaluation gives its value, in the postfix order that expressions are calculated in as in the one step of
a function. -/

namespace Reckoner

theorem Step.exists_render (step : Step) : ∃ shown, step.render = shown ++ " = " ++ step.result.display := by
  cases step with
  | operation left op right result => exact ⟨_, rfl⟩
  | application function operand result =>
      have hjoin : ") = " = ")" ++ " = " := rfl
      refine ⟨function ++ "(" ++ operand.display ++ ")", ?_⟩
      rw [render, hjoin, ← String.append_assoc]
      rfl

namespace Evaluation

/-- The last step gives the value, if there is a step. -/
def EndsInValue (e : Evaluation) : Prop :=
  ∀ step, e.steps.getLast? = some step → step.result = e.value

theorem EndsInValue.exists_last {e : Evaluation} (h : e.EndsInValue) {last : String}
    (hlast : e.renderedSteps.getLast? = some last) : ∃ shown, last = shown ++ " = " ++ e.text := by
  rw [renderedSteps, List.getLast?_map, Option.map_eq_some_iff] at hlast
  obtain ⟨step, hstep, rfl⟩ := hlast
  rw [text, ← h step hstep]
  exact step.exists_render

end Evaluation

theorem Expression.endsInValue_of_evaluate {s : String} {e : Evaluation} (h : evaluate s = .ok e) :
    e.EndsInValue := by
  obtain ⟨t, rfl⟩ := exists_tree_eq h
  exact fun step => Postfix.result_of_getLast?_steps

theorem UnaryFunction.endsInValue_of_apply [MathLibrary] {name : String} {x : Binary64} {e : Evaluation}
    (h : apply name x = .ok e) : e.EndsInValue := by
  rw [apply] at h
  cases hname : ofName? name with
  | none =>
      rw [hname] at h
      cases h
  | some f =>
      rw [hname] at h
      cases h
      intro step hstep
      cases hstep
      rfl

/-- The display accounts for itself: it is empty, it is the error text without a step, or it is one
evaluation of a kind, with the steps of that one. -/
def Session.Displays (s : Session) (P : Evaluation → Prop) : Prop :=
  s.result = "" ∧ s.steps = [] ∨ s.result = "Error" ∧ s.steps = [] ∨
    ∃ e, P e ∧ s.result = e.text ∧ s.steps = e.renderedSteps

/-- A request that has nothing to do with what is displayed. -/
def Request.KeepsDisplay : Request → Prop
  | .press key => key ≠ "C"
  | .toggleMode | .loadHistory | .clearHistory | .listStored _ | .insertStored .. => True
  | .calculate _ | .applyFunction _ | .restart _ => False

namespace Desk

section Library

variable [MathLibrary] {d : Desk} {request : Request}

/-- A request calculates an evaluation. It is answered with that one, or with the fault of its insertion into
the history, when that fault is none of the storage. -/
structure Shows (d : Desk) (request : Request) (e : Evaluation) : Prop where
  calculated : ∃ input, d.calculation? request = some (input, .ok e)
  answered : (d.perform request).2 = .ok (.evaluation (some e)) ∨
    ∃ input fault, d.calculation? request = some (input, .ok e) ∧
      (History.insert d.world d.session.settings.historyPath input e.text).2 = .error fault ∧
      fault.isStorage = false ∧ (d.perform request).2 = .error fault

/-- Some request of the present session, the last one that requests have come to, is of a kind at the desk
that it finds. -/
def Asked (d : Desk) (requests : List Request) (P : Desk → Request → Prop) : Prop :=
  ∃ before request after, requests = before ++ request :: after ∧
    (∀ settings, .restart settings ∉ after) ∧ P (d.performAll before) request

theorem Asked.concat {requests : List Request} {P : Desk → Request → Prop} (h : d.Asked requests P)
    (hrestart : ∀ settings, request ≠ .restart settings) : d.Asked (requests ++ [request]) P := by
  obtain ⟨before, asked, after, rfl, hafter, hasked⟩ := h
  refine ⟨before, asked, after ++ [request], by simp, fun settings hmem => ?_, hasked⟩
  rcases List.mem_append.mp hmem with hmem | hmem
  · exact hafter settings hmem
  · exact hrestart settings (List.mem_singleton.mp hmem).symm

theorem asked_last {requests : List Request} {P : Desk → Request → Prop}
    (h : P (d.performAll requests) request) : d.Asked (requests ++ [request]) P :=
  ⟨requests, request, [], rfl, fun _ hmem => (by cases hmem), h⟩

theorem endsInValue_of_calculation {input : String} {e : Evaluation}
    (h : d.calculation? request = some (input, .ok e)) : e.EndsInValue := by
  cases request with
  | calculate expression =>
      rw [calculation?, Option.some.injEq, Prod.mk.injEq] at h
      exact Expression.endsInValue_of_evaluate h.2
  | applyFunction name =>
      rw [calculation?, Option.some.injEq, Prod.mk.injEq] at h
      exact UnaryFunction.endsInValue_of_apply h.2
  | _ => cases h

theorem displayed_calculation {input : String} {outcome : Except CalculationError Evaluation}
    (h : d.calculation? request = some (input, outcome)) :
    (d.perform request).1.session.result = shownResult outcome ∧
      (d.perform request).1.session.steps = shownSteps outcome := by
  obtain ⟨-, -, -, hresult, hsteps⟩ :=
    conclude_eq ⟨d.session.enter request, d.world⟩ input outcome
  rw [perform_calculation h]
  exact ⟨hresult, hsteps⟩

/-- A calculation that is not refused is answered, whatever becomes of it in the history: only a fault of its
insertion that is none of the storage keeps it back. -/
theorem shows_of_calculation {input : String} {e : Evaluation}
    (h : d.calculation? request = some (input, .ok e)) : d.Shows request e := by
  obtain ⟨-, hreply, -⟩ := conclude_eq ⟨d.session.enter request, d.world⟩ input (.ok e)
  have hsettings := (d.session.enter_unchanged request).1
  refine ⟨⟨input, h⟩, ?_⟩
  rw [perform_calculation h, replying, hreply]
  dsimp only
  rw [hsettings]
  cases hconclusion : (History.conclusion d.world.files d.session.settings.historyPath input (.ok e)).2 with
  | ok done => exact Or.inl rfl
  | error fault =>
      obtain ⟨hinsert, hstorage⟩ := History.insertion_of_conclusion hconclusion
      refine Or.inr ⟨input, fault, h, ?_, hstorage, rfl⟩
      rw [(History.insert_eq_insertion d.world _ input e.text).2]
      exact hinsert

theorem displayed_of_keepsDisplay (d : Desk) (h : request.KeepsDisplay) :
    (d.perform request).1.session.result = d.session.result ∧
      (d.perform request).1.session.steps = d.session.steps := by
  cases request with
  | press key =>
      have hkey : key ≠ Session.clearKey := h
      simp only [perform, Session.press, if_neg hkey, and_self]
  | loadHistory =>
      simp only [perform, replying, loadHistory]
      rcases History.recent d.world d.session.settings.historyPath
        d.session.settings.historyLimit with ⟨w, fault | records⟩
      · exact ⟨rfl, rfl⟩
      · exact ⟨rfl, rfl⟩
  | clearHistory =>
      simp only [perform, replying, clearHistory]
      rcases History.clear d.world d.session.settings.historyPath with ⟨w, fault | count⟩
      · exact ⟨rfl, rfl⟩
      · exact ⟨rfl, rfl⟩
  | toggleMode => exact ⟨rfl, rfl⟩
  | listStored limit => exact ⟨rfl, rfl⟩
  | insertStored input result => exact ⟨rfl, rfl⟩
  | calculate expression => exact h.elim
  | applyFunction name => exact h.elim
  | restart settings => exact h.elim

/-- A request leaves what is displayed and goes on with the session, or displays nothing, the error text
or the evaluation that it calculates. -/
theorem displayed_perform (d : Desk) (request : Request) :
    (∀ settings, request ≠ .restart settings) ∧
        (d.perform request).1.session.result = d.session.result ∧
        (d.perform request).1.session.steps = d.session.steps ∨
      (d.perform request).1.session.Displays (d.Shows request) := by
  have hcalculation : ∀ input outcome, d.calculation? request = some (input, outcome) →
      (d.perform request).1.session.Displays (d.Shows request) := by
    intro input outcome h
    have hdisplayed := displayed_calculation h
    cases outcome with
    | error e => exact Or.inr (Or.inl hdisplayed)
    | ok e => exact Or.inr (Or.inr ⟨e, shows_of_calculation h, hdisplayed⟩)
  cases request with
  | press key =>
      by_cases hkey : key = "C"
      · subst hkey
        exact Or.inr (Or.inl ⟨rfl, rfl⟩)
      · exact Or.inl ⟨by simp, displayed_of_keepsDisplay d hkey⟩
  | calculate expression => exact Or.inr (hcalculation _ _ rfl)
  | applyFunction name => exact Or.inr (hcalculation _ _ rfl)
  | restart settings => exact Or.inr (Or.inl ⟨rfl, rfl⟩)
  | toggleMode => exact Or.inl ⟨by simp, displayed_of_keepsDisplay d trivial⟩
  | loadHistory => exact Or.inl ⟨by simp, displayed_of_keepsDisplay d trivial⟩
  | clearHistory => exact Or.inl ⟨by simp, displayed_of_keepsDisplay d trivial⟩
  | listStored limit => exact Or.inl ⟨by simp, displayed_of_keepsDisplay d trivial⟩
  | insertStored input result => exact Or.inl ⟨by simp, displayed_of_keepsDisplay d trivial⟩

theorem displays_performAll (w : World) (settings : Settings) (requests : List Request) :
    let first : Desk := ⟨.new settings, w⟩
    (first.performAll requests).session.Displays fun e =>
      first.Asked requests fun d request => d.Shows request e := by
  intro first
  -- the last request decides, or else leaves what those before it have displayed
  induction requests using List.reverseRecOn with
  | nil => exact Or.inl ⟨rfl, rfl⟩
  | append_singleton requests request ih =>
      rw [performAll_append]
      rcases displayed_perform (first.performAll requests) request with
        ⟨hrestart, hresult, hsteps⟩ | hempty | herror | ⟨e, hshows, hdisplayed⟩
      · rcases ih with ⟨hresult', hsteps'⟩ | ⟨hresult', hsteps'⟩ | ⟨e, hasked, hresult', hsteps'⟩
        · exact Or.inl ⟨hresult.trans hresult', hsteps.trans hsteps'⟩
        · exact Or.inr (Or.inl ⟨hresult.trans hresult', hsteps.trans hsteps'⟩)
        · exact Or.inr (Or.inr
            ⟨e, hasked.concat hrestart, hresult.trans hresult', hsteps.trans hsteps'⟩)
      · exact Or.inl hempty
      · exact Or.inr (Or.inl herror)
      · exact Or.inr (Or.inr ⟨e, asked_last hshows, hdisplayed⟩)

/-- What is displayed is coherent, in every state that requests lead to: it is empty, the error text
without a step, or one evaluation that the present session has calculated, whose request was answered
with it unless its insertion into the history raised a fault that is none of the storage. The last step,
if there is one, ends in the result. And keys but the clear key, changes of the mode and requests to the
history leave what is displayed as it is. -/
theorem display_is_coherent (w : World) (settings : Settings) (requests : List Request) :
    let first : Desk := ⟨.new settings, w⟩
    let d := first.performAll requests
    d.session.Displays (fun e => first.Asked requests fun d request => d.Shows request e) ∧
      (∀ last, d.session.steps.getLast? = some last →
        ∃ shown, last = shown ++ " = " ++ d.session.result) ∧
      ∀ request : Request, request.KeepsDisplay →
        (d.perform request).1.session.result = d.session.result ∧
          (d.perform request).1.session.steps = d.session.steps := by
  intro first d
  have hdisplays := displays_performAll w settings requests
  refine ⟨hdisplays, fun last hlast => ?_, fun request => displayed_of_keepsDisplay d⟩
  rcases hdisplays with ⟨-, hsteps⟩ | ⟨-, hsteps⟩ | ⟨e, hasked, hresult, hsteps⟩
  · rw [show d.session.steps = [] from hsteps] at hlast
    cases hlast
  · rw [show d.session.steps = [] from hsteps] at hlast
    cases hlast
  · obtain ⟨before, request, after, -, -, hshows⟩ := hasked
    obtain ⟨input, hcalculation⟩ := hshows.calculated
    rw [show d.session.steps = _ from hsteps] at hlast
    rw [show d.session.result = _ from hresult]
    exact (endsInValue_of_calculation hcalculation).exists_last hlast

end Library

attribute [local instance] MathLibrary.ofSeries

theorem display_is_coherent_of_product :
    let w : World := ⟨⟨[(["w"], .directory)], ["w"]⟩, []⟩
    let settings : Settings := ⟨Path.ofString "d.db", 20, .warning, by decide, by decide⟩
    let requests : List Request := [.press "1+", .calculate none, .calculate (some "(1+2)*3")]
    let d := performAll ⟨.new settings, w⟩ requests
    d.session.result = "9" ∧ d.session.steps = ["1 + 2 = 3", "3 * 3 = 9"] ∧
      (∃ shown, "3 * 3 = 9" = shown ++ " = " ++ d.session.result) ∧
      (d.perform .clearHistory).1.session.result = "9" ∧
      (d.perform .clearHistory).1.session.steps = ["1 + 2 = 3", "3 * 3 = 9"] := by
  intro w settings requests d
  have hresult : d.session.result = "9" := by decide +kernel
  have hsteps : d.session.steps = ["1 + 2 = 3", "3 * 3 = 9"] := by decide +kernel
  have hlast : ∀ last, d.session.steps.getLast? = some last →
      ∃ shown, last = shown ++ " = " ++ d.session.result :=
    (display_is_coherent w settings requests).2.1
  have hkept : ∀ request : Request, request.KeepsDisplay →
      (d.perform request).1.session.result = d.session.result ∧
        (d.perform request).1.session.steps = d.session.steps :=
    (display_is_coherent w settings requests).2.2
  obtain ⟨hresult', hsteps'⟩ := hkept .clearHistory trivial
  refine ⟨hresult, hsteps, hlast _ ?_, hresult'.trans hresult, hsteps'.trans hsteps⟩
  rw [hsteps]
  rfl

/-- With a null character in the path of the history an evaluation is displayed that was not the answer
to any request. -/
theorem display_of_null_character :
    let settings : Settings := ⟨Path.ofString "a\x00b", 20, .warning, by decide, by decide⟩
    let first : Desk := ⟨.new settings, ⟨⟨[(["w"], .directory)], ["w"]⟩, []⟩⟩
    let requests : List Request := [.press "9", .applyFunction "sqrt"]
    let d := first.performAll requests
    ((first.perform (.press "9")).1.perform (.applyFunction "sqrt")).2 = .error .nullCharacter ∧
      d.session.result = "3" ∧ d.session.steps = ["sqrt(9) = 3"] ∧
      ¬ d.session.Displays fun e => first.Asked requests fun d request =>
        (d.perform request).2 = .ok (.evaluation (some e)) := by
  intro settings first requests d
  have hreply : ((first.perform (.press "9")).1.perform (.applyFunction "sqrt")).2 =
      .error .nullCharacter := by
    decide +kernel
  have hresult : d.session.result = "3" := by decide +kernel
  refine ⟨hreply, hresult, by decide +kernel, ?_⟩
  rintro (⟨hempty, -⟩ | ⟨herror, -⟩ | ⟨e, ⟨before, request, after, hsplit, -, hanswer⟩, -⟩)
  · rw [hresult] at hempty
    exact absurd hempty (by decide)
  · rw [hresult] at herror
    exact absurd herror (by decide)
  · rcases before with _ | ⟨pressed, _ | ⟨applied, rest⟩⟩
    · obtain ⟨rfl, -⟩ := List.cons.inj hsplit
      cases hanswer
    · obtain ⟨rfl, htail⟩ := List.cons.inj hsplit
      obtain ⟨rfl, -⟩ := List.cons.inj htail
      rw [show (performAll first [.press "9"]) = (first.perform (.press "9")).1 from rfl, hreply] at hanswer
      cases hanswer
    · simp [requests] at hsplit

end Desk
end Reckoner
