import Mathlib.Data.List.Basic
import Reckoner.Proofs.LedgerJournal
import Reckoner.Proofs.SessionFailures

/-! The records that sessions leave. On a usable history each request does to the ledger what its reply
says: a calculation that was returned adds one record, so does a direct insertion, clearing takes all records
away, and nothing else changes any (`ledgerAt_perform`). So a run of requests, sessions put in each other's
place among them, leaves what was there before, and then one record for each addition, under consecutive
numbers (`records_of_requests`). A history is usable along a run when every session on the way opens the same
ledger, as sessions do whose paths lead to one file at the start (`usesAlong_of_leads`). -/

namespace Reckoner

open FileTree History

namespace Ledger

/-- A ledger with one calculation more, if there is one. -/
def enter (ledger : Ledger) : Option (String × String) → Ledger
  | none => ledger
  | some (input, result) => ledger.insert input result

theorem lastId_enter (ledger : Ledger) (calculation : Option (String × String)) :
    (ledger.enter calculation).lastId = ledger.lastId + calculation.toList.length := by
  cases calculation <;> rfl

theorem records_enter (ledger : Ledger) (calculation : Option (String × String)) :
    (ledger.enter calculation).records.reverse =
      ledger.records.reverse ++ Journal.numbered (ledger.lastId + 1) calculation.toList := by
  rcases calculation with _ | ⟨input, result⟩
  · exact (List.append_nil _).symm
  · exact List.reverse_cons

end Ledger

namespace Desk

variable {d : Desk} {request : Request} {requests : List Request} {l : Location}

/-- The session's path opens the ledger at a location, to change it. -/
def Uses (d : Desk) (l : Location) : Prop :=
  Opens d.world.files d.session.settings.historyPath l true

/-- A store on a usable history does not fail, and adds a record to the ledger. -/
theorem store_of_uses (h : d.Uses l) (input result : String) :
    (d.store input result).2 = .ok () ∧
      ledgerAt (d.store input result).1.world.files l =
        (ledgerAt d.world.files l).insert input result := by
  obtain ⟨hanswer, hreplaces⟩ := h.insert_ok input result
  rw [store]
  rcases hinsert : History.insert d.world d.session.settings.historyPath input result with
    ⟨w, fault | record⟩
  · rw [hinsert] at hanswer
    cases hanswer
  · rw [hinsert] at hreplaces
    exact ⟨rfl, hreplaces.own l h.database?_eq⟩

/-- A calculation on a usable history is answered by its outcome, and enters the ledger when it was not
refused. -/
theorem conclude_of_uses (h : d.Uses l) (input : String)
    (outcome : Except CalculationError Evaluation) :
    (d.conclude input outcome).2 = .ok outcome.toOption ∧
      ledgerAt (d.conclude input outcome).1.world.files l =
        (ledgerAt d.world.files l).enter (outcome.toOption.map fun e => (input, e.text)) := by
  cases outcome with
  | error e => exact ⟨rfl, rfl⟩
  | ok evaluation =>
      obtain ⟨hdone, hledger⟩ :=
        store_of_uses (d := { d with session := d.session.showEvaluation evaluation }) h input evaluation.text
      rw [conclude]
      rcases hstore : Desk.store { d with session := d.session.showEvaluation evaluation } input
        evaluation.text with ⟨d', fault | done⟩
      · rw [hstore] at hdone
        cases hdone
      · rw [hstore] at hledger
        exact ⟨rfl, hledger⟩

/-! Loading and clearing do to the world what their one call does. -/

theorem world_loadHistory (d : Desk) :
    d.loadHistory.1.world = (History.recent d.world d.session.settings.historyPath
      d.session.settings.historyLimit).1 := by
  rw [loadHistory]
  rcases History.recent d.world d.session.settings.historyPath d.session.settings.historyLimit with
    ⟨w, fault | records⟩
  · rfl
  · rfl

theorem clearHistory_eq (d : Desk) :
    d.clearHistory.1.world = (History.clear d.world d.session.settings.historyPath).1 ∧
      d.clearHistory.2 = (History.clear d.world d.session.settings.historyPath).2 := by
  rw [clearHistory]
  rcases History.clear d.world d.session.settings.historyPath with ⟨w, fault | count⟩
  · exact ⟨rfl, rfl⟩
  · exact ⟨rfl, rfl⟩

theorem sameLedgers_of_store_error {input result : String} {fault : HistoryFault}
    (h : (d.store input result).2 = .error fault) :
    SameLedgers d.world.files d.session.settings.historyPath (d.store input result).1.world.files := by
  rw [store] at h ⊢
  rcases hinsert : History.insert d.world d.session.settings.historyPath input result with
    ⟨w, fault' | record⟩
  · have hsame := sameLedgers_of_insert_error (congrArg Prod.snd hinsert)
    rw [hinsert] at h hsame
    by_cases hstorage : fault'.isStorage = true
    · simp only [if_pos hstorage] at h
      cases h
    · simp only [if_neg hstorage]
      exact hsame
  · rw [hinsert] at h
    cases h

/-- A calculation that raises a fault has changed no ledger, and one that is refused no file. -/
theorem conclude_of_no_result (d : Desk) (input : String) (outcome : Except CalculationError Evaluation) :
    (∀ fault, (d.conclude input outcome).2 = .error fault →
      SameLedgers d.world.files d.session.settings.historyPath
        (d.conclude input outcome).1.world.files) ∧
      ((d.conclude input outcome).2 = .ok none →
        (d.conclude input outcome).1.world.files = d.world.files) := by
  cases outcome with
  | error e => exact ⟨fun fault h => (by cases h), fun _ => rfl⟩
  | ok evaluation =>
      let shown : Desk := { d with session := d.session.showEvaluation evaluation }
      have hfault : ∀ fault, (shown.store input evaluation.text).2 = .error fault →
          SameLedgers d.world.files d.session.settings.historyPath
            (shown.store input evaluation.text).1.world.files :=
        fun fault => sameLedgers_of_store_error
      rw [conclude]
      rcases hstore : shown.store input evaluation.text with ⟨d', fault | done⟩
      · rw [hstore] at hfault
        exact ⟨fun _ _ => hfault fault rfl, fun h => by cases h⟩
      · exact ⟨fun _ h => (by cases h), fun h => by cases h⟩

theorem replying_ne {α : Type} {f : α → Reply} {reply : Reply} (hf : ∀ a, f a ≠ reply)
    (x : Desk × Except HistoryFault α) : (replying f x).2 ≠ .ok reply := by
  intro h
  obtain ⟨a, -, heq⟩ := reply_of_replying h
  exact hf a heq

section Library

variable [MathLibrary]

/-- What a request adds to the history, read off its reply: a calculation that was returned, under the
input that was calculated, and a direct insertion. -/
def addition? (d : Desk) (request : Request) : Option (String × String) :=
  match request, (d.perform request).2 with
  | .calculate expression, .ok (.evaluation (some e)) =>
    some (expression.getD d.session.input, e.text)
  | .applyFunction name, .ok (.evaluation (some e)) =>
    some (name ++ "(" ++ d.session.input ++ ")", e.text)
  | .insertStored input result, _ => some (input, result)
  | _, _ => none

theorem perform_calculation_of_uses (h : d.Uses l) {input : String}
    {outcome : Except CalculationError Evaluation}
    (hcalculation : d.calculation? request = some (input, outcome)) :
    (d.perform request).2 = .ok (.evaluation outcome.toOption) ∧
      ledgerAt (d.perform request).1.world.files l =
        (ledgerAt d.world.files l).enter (outcome.toOption.map fun e => (input, e.text)) := by
  have huses : Uses ⟨d.session.enter request, d.world⟩ l := by
    rw [Uses, (d.session.enter_unchanged request).1]
    exact h
  obtain ⟨hreply, hledger⟩ := conclude_of_uses huses input outcome
  rw [perform_calculation hcalculation]
  exact ⟨congrArg (Except.map Reply.evaluation) hreply, hledger⟩

theorem addition?_of_calculation {input : String} {outcome : Except CalculationError Evaluation}
    (hcalculation : d.calculation? request = some (input, outcome))
    (hreply : (d.perform request).2 = .ok (.evaluation outcome.toOption)) :
    d.addition? request = outcome.toOption.map fun e => (input, e.text) := by
  cases request with
  | calculate expression =>
      cases hcalculation
      unfold addition?
      rw [hreply]
      cases (Expression.evaluate (expression.getD d.session.input)).toOption <;> rfl
  | applyFunction name =>
      cases hcalculation
      unfold addition?
      rw [hreply]
      cases (UnaryFunction.apply name (Operand.parse d.session.input)).toOption <;> rfl
  | _ => cases hcalculation

/-- What a request on a usable history does to the ledger: clearing takes its records away, and any other
request enters what it adds. -/
theorem ledgerAt_perform (h : d.Uses l) (request : Request) :
    ledgerAt (d.perform request).1.world.files l =
      if request = .clearHistory then (ledgerAt d.world.files l).clear
      else (ledgerAt d.world.files l).enter (d.addition? request) := by
  by_cases hclear : request = .clearHistory
  · subst hclear
    change ledgerAt d.clearHistory.1.world.files l = _
    rw [if_pos rfl, d.clearHistory_eq.1]
    exact h.clear_ok.2.own l h.database?_eq
  have hcalculation : ∀ input outcome, d.calculation? request = some (input, outcome) →
      ledgerAt (d.perform request).1.world.files l =
        (ledgerAt d.world.files l).enter (d.addition? request) := by
    intro input outcome hcalculation
    obtain ⟨hreply, hledger⟩ := perform_calculation_of_uses h hcalculation
    rw [hledger, addition?_of_calculation hcalculation hreply]
  rw [if_neg hclear]
  cases request with
  | calculate expression => exact hcalculation _ _ rfl
  | applyFunction name => exact hcalculation _ _ rfl
  | loadHistory =>
      change ledgerAt d.loadHistory.1.world.files l = ledgerAt d.world.files l
      rw [world_loadHistory]
      exact (recent_cases d.world d.session.settings.historyPath
        d.session.settings.historyLimit).1.ledgerAt_eq h.database?_eq
  | clearHistory => exact absurd rfl hclear
  | listStored limit =>
      exact (recent_cases d.world d.session.settings.historyPath limit).1.ledgerAt_eq h.database?_eq
  | insertStored input result => exact (h.insert_ok input result).2.own l h.database?_eq
  | press key => rfl
  | toggleMode => rfl
  | restart settings => rfl

/-- What requests add to the history, in order. -/
def additions (d : Desk) : List Request → List (String × String)
  | [] => []
  | request :: rest => (d.addition? request).toList ++ (d.perform request).1.additions rest

/-- In every state on the way through requests, the session's path opens the ledger at a location. -/
def UsesAlong (d : Desk) (l : Location) (requests : List Request) : Prop :=
  ∀ before, before <+: requests → (d.performAll before).Uses l

theorem performAll_append (d : Desk) (before after : List Request) :
    d.performAll (before ++ after) = (d.performAll before).performAll after :=
  List.foldl_append

namespace UsesAlong

theorem own (h : d.UsesAlong l requests) : d.Uses l :=
  h [] List.nil_prefix

theorem last (h : d.UsesAlong l requests) : (d.performAll requests).Uses l :=
  h requests (List.prefix_refl _)

theorem tail (h : d.UsesAlong l (request :: requests)) :
    (d.perform request).1.UsesAlong l requests :=
  fun before hbefore => h (request :: before) (List.cons_prefix_cons.2 ⟨rfl, hbefore⟩)

theorem left {before after : List Request} (h : d.UsesAlong l (before ++ after)) :
    d.UsesAlong l before :=
  fun first hfirst => h first (hfirst.trans (List.prefix_append _ _))

theorem right {before after : List Request} (h : d.UsesAlong l (before ++ after)) :
    (d.performAll before).UsesAlong l after := by
  intro first hfirst
  rw [← performAll_append]
  exact h _ ((List.prefix_append_right_inj before).2 hfirst)

/-- Each addition has a number of its own, and nothing else uses up a number. -/
theorem lastId_performAll (h : d.UsesAlong l requests) :
    (ledgerAt (d.performAll requests).world.files l).lastId =
      (ledgerAt d.world.files l).lastId + (d.additions requests).length := by
  induction requests generalizing d with
  | nil => rfl
  | cons request requests ih =>
      have hstep : (ledgerAt (d.perform request).1.world.files l).lastId =
          (ledgerAt d.world.files l).lastId + (d.addition? request).toList.length := by
        rw [ledgerAt_perform h.own]
        by_cases hclear : request = .clearHistory
        · subst hclear
          rw [if_pos rfl]
          rfl
        · rw [if_neg hclear, Ledger.lastId_enter]
      rw [additions, List.length_append, ← Nat.add_assoc, ← hstep]
      exact ih h.tail

/-- While no request clears the history, the additions follow the records that were there before. -/
theorem records_performAll (h : d.UsesAlong l requests) (hclear : .clearHistory ∉ requests) :
    (ledgerAt (d.performAll requests).world.files l).records.reverse =
      (ledgerAt d.world.files l).records.reverse ++
        Journal.numbered ((ledgerAt d.world.files l).lastId + 1) (d.additions requests) := by
  -- the rest of the requests begins at the ledger that the first one leaves, so the desk is general
  induction requests generalizing d with
  | nil => exact (List.append_nil _).symm
  | cons request requests ih =>
      rw [List.mem_cons, not_or] at hclear
      have hrest := ih h.tail hclear.2
      rw [ledgerAt_perform h.own, if_neg (Ne.symm hclear.1), Ledger.records_enter,
        Ledger.lastId_enter] at hrest
      rw [additions, Journal.numbered_append, ← List.append_assoc, Nat.add_right_comm]
      exact hrest

/-- After the history was cleared it holds what was added since, numbered on from what was added before. -/
theorem records_performAll_clear {before after : List Request}
    (h : d.UsesAlong l (before ++ .clearHistory :: after)) (hclear : .clearHistory ∉ after) :
    (ledgerAt (d.performAll (before ++ .clearHistory :: after)).world.files l).records.reverse =
      Journal.numbered ((ledgerAt d.world.files l).lastId + (d.additions before).length + 1)
        ((d.performAll (before ++ [.clearHistory])).additions after) := by
  have hcleared := ledgerAt_perform h.right.own .clearHistory
  rw [if_pos rfl] at hcleared
  have hafter := h.right.tail.records_performAll hclear
  rw [hcleared, Ledger.clear, h.left.lastId_performAll] at hafter
  rw [performAll_append, performAll_append]
  exact hafter

end UsesAlong

/-- The paths of some class lead to one file that they may change, and that of the session is among them. -/
structure Shared (S : Path → Prop) (l : Location) (d : Desk) : Prop where
  path : S d.session.settings.historyPath
  leads : ∀ p, S p → Leads d.world.files p l true

namespace Shared

variable {S : Path → Prop}

/-- A request keeps the paths usable, and so does a new session that has one of them. -/
theorem perform (h : Shared S l d)
    (hrestart : ∀ settings, request = .restart settings → S settings.historyPath) :
    Shared S l (d.perform request).1 := by
  by_cases hsession : ∃ settings, request = .restart settings
  · obtain ⟨settings, rfl⟩ := hsession
    exact ⟨hrestart settings rfl, h.leads⟩
  · have hown := h.leads _ h.path
    have hsteps := stepsTo_perform d fun settings heq => hsession ⟨settings, heq⟩
    refine ⟨?_, fun p hp => ?_⟩
    · rw [hsteps.settings]
      exact h.path
    · rcases hsteps.call with heq | ⟨c, heq⟩
      · rw [heq]
        exact h.leads p hp
      · rw [heq]
        exact (h.leads p hp).perform_same hown c

theorem performAll (h : Shared S l d)
    (hrestart : ∀ settings, .restart settings ∈ requests → S settings.historyPath) :
    Shared S l (d.performAll requests) := by
  induction requests generalizing d with
  | nil => exact h
  | cons request requests ih =>
      refine ih (h.perform fun settings heq => ?_) fun settings hmem => ?_
      · exact hrestart settings (heq ▸ List.mem_cons_self)
      · exact hrestart settings (List.mem_cons_of_mem _ hmem)

end Shared

/-- Sessions whose paths lead to one file before the first request use it in every state after. -/
theorem usesAlong_of_leads {w : World} {settings : Settings}
    (h : ∀ s : Settings, s = settings ∨ .restart s ∈ requests → Leads w.files s.historyPath l true) :
    UsesAlong ⟨.new settings, w⟩ l requests := by
  intro before hbefore
  let S : Path → Prop := fun p => ∃ s : Settings, (s = settings ∨ .restart s ∈ requests) ∧ s.historyPath = p
  have hfirst : Shared S l ⟨.new settings, w⟩ := by
    refine ⟨⟨settings, Or.inl rfl, rfl⟩, ?_⟩
    rintro p ⟨s, hs, rfl⟩
    exact h s hs
  have hlast : Shared S l (performAll ⟨.new settings, w⟩ before) :=
    hfirst.performAll fun s hs => ⟨s, Or.inr (hbefore.subset hs), rfl⟩
  exact (hlast.leads _ hlast.path).opens

/-- Only a calculation is answered with one, or with none. -/
theorem exists_calculation {e : Option Evaluation} (h : (d.perform request).2 = .ok (.evaluation e)) :
    ∃ input outcome, d.calculation? request = some (input, outcome) := by
  cases request with
  | calculate expression => exact ⟨_, _, rfl⟩
  | applyFunction name => exact ⟨_, _, rfl⟩
  | loadHistory => exact absurd h (replying_ne (by simp) d.loadHistory)
  | clearHistory => exact absurd h (replying_ne (by simp) d.clearHistory)
  | listStored limit => exact absurd h (replying_ne (by simp) (d, _))
  | insertStored input result => exact absurd h (replying_ne (by simp) (d, _))
  | _ => cases h

/-- Only a new session is answered with nothing. -/
theorem exists_restart (h : (d.perform request).2 = .ok .nothing) :
    ∃ settings, request = .restart settings := by
  cases request with
  | restart settings => exact ⟨settings, rfl⟩
  | calculate expression => exact absurd h (replying_ne (by simp) (d.calculate expression))
  | applyFunction name => exact absurd h (replying_ne (by simp) (d.applyFunction name))
  | loadHistory => exact absurd h (replying_ne (by simp) d.loadHistory)
  | clearHistory => exact absurd h (replying_ne (by simp) d.clearHistory)
  | listStored limit => exact absurd h (replying_ne (by simp) (d, _))
  | insertStored input result => exact absurd h (replying_ne (by simp) (d, _))
  | _ => cases h

/-- A calculation that is refused changes no file. -/
theorem files_of_refused (h : (d.perform request).2 = .ok (.evaluation none)) :
    (d.perform request).1.world.files = d.world.files := by
  obtain ⟨input, outcome, hcalculation⟩ := exists_calculation h
  rw [perform_calculation hcalculation] at h ⊢
  refine (conclude_of_no_result ⟨d.session.enter request, d.world⟩ input outcome).2 ?_
  rw [replying] at h
  rcases hreply : (conclude ⟨d.session.enter request, d.world⟩ input outcome).2 with fault | e
  · rw [hreply] at h
    cases h
  · rw [hreply] at h
    cases h
    rfl

/-- A request that raises a fault changes no ledger. -/
theorem sameLedgers_of_fault {fault : HistoryFault} (h : (d.perform request).2 = .error fault) :
    SameLedgers d.world.files d.session.settings.historyPath (d.perform request).1.world.files := by
  have hcalculation : ∀ input outcome, d.calculation? request = some (input, outcome) →
      SameLedgers d.world.files d.session.settings.historyPath (d.perform request).1.world.files := by
    intro input outcome hcalculation
    rw [perform_calculation hcalculation] at h ⊢
    rw [← (d.session.enter_unchanged request).1]
    exact (conclude_of_no_result ⟨d.session.enter request, d.world⟩ input outcome).1 fault
      (fault_of_replying h)
  cases request with
  | press key => exact SameLedgers.refl _ _
  | toggleMode => exact SameLedgers.refl _ _
  | calculate expression => exact hcalculation _ _ rfl
  | applyFunction name => exact hcalculation _ _ rfl
  | loadHistory =>
      change SameLedgers d.world.files d.session.settings.historyPath d.loadHistory.1.world.files
      rw [world_loadHistory]
      exact (recent_cases d.world d.session.settings.historyPath d.session.settings.historyLimit).1
  | clearHistory =>
      have hclear : d.clearHistory.2 = .error fault := fault_of_replying h
      rw [d.clearHistory_eq.2] at hclear
      exact (clearHistory_of_fault hclear).2.2
  | listStored limit => exact (recent_cases d.world d.session.settings.historyPath limit).1
  | insertStored input result =>
      exact sameLedgers_of_insert_error (fault_of_replying (x := (d, _)) h)
  | restart settings => exact SameLedgers.refl _ _

/-- After any requests, sessions put in each other's place among them, a list of the newest records shows
each calculation once, if all of them have used the same ledger. Read oldest first it has the records that
were there at the start, and then what the requests have added, in order and under consecutive numbers;
when the history was cleared, it has what was added after that. A request that is answered with a fault or
with nothing changes no ledger, its counter included, but for files beside the session's own, and one whose
calculation is refused not even a file. -/
theorem records_of_requests {w : World} {settings : Settings} {requests : List Request}
    (huses : UsesAlong ⟨.new settings, w⟩ l requests) :
    let start := ledgerAt w.files l
    let first : Desk := ⟨.new settings, w⟩
    let last := first.performAll requests
    ∃ records,
      (∀ limit : Int, 1 ≤ limit → records.length ≤ limit → limit ≤ maxLimit →
        (History.recent last.world last.session.settings.historyPath limit).2 = .ok records) ∧
      (.clearHistory ∉ requests → records.reverse =
        start.records.reverse ++ Journal.numbered (start.lastId + 1) (first.additions requests)) ∧
      (∀ before after, requests = before ++ .clearHistory :: after → .clearHistory ∉ after →
        records.reverse = Journal.numbered (start.lastId + (first.additions before).length + 1)
          ((first.performAll (before ++ [.clearHistory])).additions after)) ∧
      ∀ before request after, requests = before ++ request :: after →
        let d := first.performAll before
        let reply := (d.perform request).2
        let d' := (d.perform request).1
        ((∃ fault, reply = .error fault) ∨ reply = .ok (.evaluation none) ∨ reply = .ok .nothing →
          SameLedgers d.world.files d.session.settings.historyPath d'.world.files) ∧
          (reply = .ok (.evaluation none) → d'.world.files = d.world.files) := by
  intro start first last
  refine ⟨(ledgerAt last.world.files l).records, fun limit hone hlength hmax => ?_,
    huses.records_performAll, fun before after hsplit hclear => ?_, fun before request after _ => ?_⟩
  · have htake : (ledgerAt last.world.files l).records.length ≤ limit.toNat := by omega
    have hlast : Opens last.world.files last.session.settings.historyPath l true := huses.last
    rw [hlast.recent_ok hone, if_neg (Int.not_lt.2 hmax), Ledger.recent, List.take_of_length_le htake]
  · subst hsplit
    exact huses.records_performAll_clear hclear
  · refine ⟨?_, files_of_refused⟩
    rintro (⟨fault, hfault⟩ | hnone | hnothing)
    · exact sameLedgers_of_fault hfault
    · rw [files_of_refused hnone]
      exact SameLedgers.refl _ _
    · obtain ⟨s, rfl⟩ := exists_restart hnothing
      exact SameLedgers.refl _ _

end Library

attribute [local instance] MathLibrary.ofSeries

theorem records_of_requests_of_clearing :
    let start : Ledger := ⟨[⟨2, "2*3", "6"⟩, ⟨1, "1/2", "0.5"⟩], 2⟩
    let w : World :=
      ⟨⟨[(["w"], .directory), (["w", "d.db"], .file (.ledger start))], ["w"]⟩, []⟩
    let settings : Settings := ⟨Path.ofString "d.db", 20, .warning, by decide, by decide⟩
    let other : Settings := ⟨Path.ofString "/w/d.db", 1, .warning, by decide, by decide⟩
    let requests : List Request :=
      [.press "9", .applyFunction "sqrt", .clearHistory, .restart other, .calculate (some "1/"),
        .insertStored "x" "y", .press "0", .calculate none, .calculate (some "1+1")]
    let last := performAll ⟨.new settings, w⟩ requests
    UsesAlong ⟨.new settings, w⟩ ["w", "d.db"] requests ∧
      (History.recent last.world last.session.settings.historyPath 9).2 =
        .ok [⟨6, "1+1", "2"⟩, ⟨5, "1/0", "Infinity"⟩, ⟨4, "x", "y"⟩] := by
  intro start w settings other requests last
  have huses : UsesAlong ⟨.new settings, w⟩ ["w", "d.db"] requests := by
    refine usesAlong_of_leads fun s hs => ?_
    have hcases : s = settings ∨ s = other := by simpa [requests] using hs
    rcases hcases with rfl | rfl
    · exact ⟨⟨⟨some ["w", "d.db"], start, true, false⟩, by decide +kernel⟩, by decide +kernel⟩
    · exact ⟨⟨⟨some ["w", "d.db"], start, true, false⟩, by decide +kernel⟩, by decide +kernel⟩
  obtain ⟨records, hlisted, -, hcleared, -⟩ := records_of_requests huses
  have hreversed := hcleared [.press "9", .applyFunction "sqrt"] _ rfl (by decide)
  have hrecords : records = [⟨6, "1+1", "2"⟩, ⟨5, "1/0", "Infinity"⟩, ⟨4, "x", "y"⟩] := by
    rw [← List.reverse_inj, hreversed]
    decide +kernel
  have hlength : (records.length : Int) ≤ 9 := by
    rw [hrecords]
    decide
  refine ⟨huses, ?_⟩
  rw [hlisted 9 (by decide) hlength (by decide), hrecords]

end Desk
end Reckoner
