import Mathlib.Data.List.Basic
import Reckoner.Proofs.LedgerAccess
import Reckoner.Session.Request

/-! The records in view and the ledger behind them. A request does one of a few things to the two
(`Effect`), and from these alone it follows that the records in view are always records of the ledger,
newest first and no more than the limit, and that once they are the newest ones of the ledger they stay
so, until a record is inserted behind the session's back. A path that names memory is left out: each of
its calls sees an empty ledger of its own. -/

namespace Reckoner

open FileTree History

/-- The numbers of the records fall, and none is above the last one given. -/
structure Ledger.Ordered (ledger : Ledger) : Prop where
  descending : ledger.records.Pairwise fun newer older => older.id < newer.id
  le_last : ∀ r ∈ ledger.records, r.id ≤ ledger.lastId

/-- Records in view of a ledger: no more than a limit, newest first, and all of them records of the
ledger. -/
structure InView (limit : Nat) (ledger : Ledger) (view : List Record) : Prop where
  length_le : view.length ≤ limit
  descending : view.Pairwise fun newer older => older.id < newer.id
  stored : ∀ r ∈ view, r ∈ ledger.records

variable {ledger : Ledger} {limit : Nat} {view : List Record}

namespace Ledger.Ordered

theorem empty : Ledger.empty.Ordered :=
  ⟨.nil, fun _ h => by cases h⟩

theorem insert (h : ledger.Ordered) (input result : String) : (ledger.insert input result).Ordered where
  descending := .cons (fun r hr => Nat.lt_succ_of_le (h.le_last r hr)) h.descending
  le_last r hr := by
    rcases List.mem_cons.1 hr with rfl | hr
    · exact Nat.le_refl _
    · exact Nat.le_succ_of_le (h.le_last r hr)

theorem clear (ledger : Ledger) : ledger.clear.Ordered :=
  ⟨.nil, fun _ h => by cases h⟩

end Ledger.Ordered

namespace InView

theorem nil (limit : Nat) (ledger : Ledger) : InView limit ledger [] :=
  ⟨Nat.zero_le _, .nil, fun _ h => by cases h⟩

theorem recent (h : ledger.Ordered) (limit : Nat) : InView limit ledger (ledger.recent limit) where
  length_le := List.length_take_le _ _
  descending := h.descending.sublist (List.take_sublist _ _)
  stored _ hr := List.mem_of_mem_take hr

theorem of_insert (h : InView limit ledger view) (input result : String) :
    InView limit (ledger.insert input result) view :=
  ⟨h.length_le, h.descending, fun r hr => List.mem_cons_of_mem _ (h.stored r hr)⟩

/-- The next record stands in front of those in view: its number is above theirs. -/
theorem insert (h : InView limit ledger view) (hordered : ledger.Ordered) (input result : String) :
    InView limit (ledger.insert input result) ((ledger.next input result :: view).take limit) where
  length_le := List.length_take_le _ _
  descending := by
    have hbelow : ∀ r ∈ view, r.id < (ledger.next input result).id :=
      fun r hr => Nat.lt_succ_of_le (hordered.le_last r (h.stored r hr))
    exact (List.Pairwise.cons hbelow h.descending).sublist (List.take_sublist _ _)
  stored r hr := by
    rcases List.mem_cons.1 (List.mem_of_mem_take hr) with rfl | hr
    · exact List.mem_cons_self
    · exact List.mem_cons_of_mem _ (h.stored r hr)

end InView

theorem take_cons_take {α : Type} (a : α) (xs : List α) (n : Nat) :
    (a :: xs.take n).take n = (a :: xs).take n := by
  cases n with
  | zero => rfl
  | succ n => rw [List.take_succ_cons, List.take_succ_cons, List.take_take, Nat.min_eq_left (Nat.le_succ n)]

/-- A request that goes on with the session and leaves the history to it. -/
def Request.IsOwn : Request → Prop
  | .insertStored .. | .restart _ => False
  | _ => True

/-- All that a request can do to the files and to the records in view: nothing that shows in a ledger or in
the view; a calculation is stored and comes into view, or is stored alone; both are emptied; or the
newest records come into view. -/
inductive Effect (s : Settings) (t : FileTree) (view : List Record) (request : Request)
    (u : FileTree) (view' : List Record) : Prop
  | nothing : SameLedgers t s.historyPath u → view' = view → Effect s t view request u view'
  | calculation (input result : String) :
      Replaces t s.historyPath ((ledgerOf t s.historyPath).insert input result) u →
      view' = ((ledgerOf t s.historyPath).next input result :: view).take s.historyLimit →
      Effect s t view request u view'
  | insertion (input result : String) : request = .insertStored input result →
      Replaces t s.historyPath ((ledgerOf t s.historyPath).insert input result) u → view' = view →
      Effect s t view request u view'
  | clearing : Replaces t s.historyPath (ledgerOf t s.historyPath).clear u → view' = [] →
      Effect s t view request u view'
  | loading : SameLedgers t s.historyPath u → view' = (ledgerOf t s.historyPath).recent s.historyLimit →
      Effect s t view request u view'

namespace Desk

/-- A request within a session: the settings stay, at most one call is made, and it has an effect. -/
structure StepsTo (d : Desk) (request : Request) (d' : Desk) : Prop where
  settings : d'.session.settings = d.session.settings
  call : d'.world.files = d.world.files ∨
    ∃ c, d'.world.files = (History.perform d.world d.session.settings.historyPath c).1.files
  effect : Effect d.session.settings d.world.files d.session.history request d'.world.files
    d'.session.history

theorem stepsTo_store (d : Desk) (request : Request) (input result : String) :
    StepsTo d request (d.store input result).1 := by
  have hcall : (History.perform d.world d.session.settings.historyPath (.insert input result)).1 =
      (History.insert d.world d.session.settings.historyPath input result).1 := rfl
  have hcases := insert_cases d.world d.session.settings.historyPath input result
  rw [store]
  rcases hinsert : History.insert d.world d.session.settings.historyPath input result with
    ⟨world, fault | record⟩
  · rw [hinsert] at hcases hcall
    have hfiles := congrArg World.files hcall.symm
    rcases hcases with ⟨fault', -, -, hsame⟩ | ⟨hok, -⟩
    · simp only
      split_ifs with hstorage
      · exact ⟨rfl, Or.inr ⟨_, hfiles⟩, .nothing hsame rfl⟩
      · exact ⟨rfl, Or.inr ⟨_, hfiles⟩, .nothing hsame rfl⟩
    · cases hok
  · rw [hinsert] at hcases hcall
    have hfiles := congrArg World.files hcall.symm
    rcases hcases with ⟨fault', -, hfault, -⟩ | ⟨hok, hreplaces⟩
    · cases hfault
    · cases hok
      exact ⟨rfl, Or.inr ⟨_, hfiles⟩, .calculation input result hreplaces rfl⟩

theorem stepsTo_conclude (d : Desk) (request : Request) (input : String)
    (outcome : Except CalculationError Evaluation) :
    StepsTo d request (d.conclude input outcome).1 := by
  cases outcome with
  | error e => exact ⟨rfl, Or.inl rfl, .nothing (SameLedgers.refl _ _) rfl⟩
  | ok evaluation =>
      have hstore := stepsTo_store { d with session := d.session.showEvaluation evaluation } request
        input evaluation.text
      rw [conclude]
      rcases hstored : Desk.store { d with session := d.session.showEvaluation evaluation } input
        evaluation.text with ⟨d', fault | done⟩
      · rw [hstored] at hstore
        exact ⟨hstore.settings, hstore.call, hstore.effect⟩
      · rw [hstored] at hstore
        exact ⟨hstore.settings, hstore.call, hstore.effect⟩

theorem stepsTo_loadHistory (d : Desk) (request : Request) : StepsTo d request d.loadHistory.1 := by
  have hcall : (History.perform d.world d.session.settings.historyPath
      (.recent d.session.settings.historyLimit)).1 =
      (History.recent d.world d.session.settings.historyPath d.session.settings.historyLimit).1 := rfl
  have hcases := recent_cases d.world d.session.settings.historyPath d.session.settings.historyLimit
  rw [loadHistory]
  rcases hrecent : History.recent d.world d.session.settings.historyPath
    d.session.settings.historyLimit with ⟨world, fault | records⟩
  · rw [hrecent] at hcases hcall
    exact ⟨rfl, Or.inr ⟨_, congrArg World.files hcall.symm⟩, .nothing hcases.1 rfl⟩
  · rw [hrecent] at hcases hcall
    refine ⟨rfl, Or.inr ⟨_, congrArg World.files hcall.symm⟩, .loading hcases.1 ?_⟩
    rcases hcases.2 with ⟨-, hfault⟩ | ⟨-, fault, -, hfault⟩ | ⟨-, opened, -, hok⟩
    · cases hfault
    · cases hfault
    · split_ifs at hok
      cases hok
      rfl

theorem stepsTo_clearHistory (d : Desk) (request : Request) : StepsTo d request d.clearHistory.1 := by
  have hcall : (History.perform d.world d.session.settings.historyPath .clear).1 =
      (History.clear d.world d.session.settings.historyPath).1 := rfl
  have hcases := clear_cases d.world d.session.settings.historyPath
  rw [clearHistory]
  rcases hclear : History.clear d.world d.session.settings.historyPath with ⟨world, fault | count⟩
  · rw [hclear] at hcases hcall
    rcases hcases with ⟨fault', -, -, hsame⟩ | ⟨hok, -⟩
    · exact ⟨rfl, Or.inr ⟨_, congrArg World.files hcall.symm⟩, .nothing hsame rfl⟩
    · cases hok
  · rw [hclear] at hcases hcall
    rcases hcases with ⟨fault', -, hfault, -⟩ | ⟨-, hreplaces⟩
    · cases hfault
    · exact ⟨rfl, Or.inr ⟨_, congrArg World.files hcall.symm⟩, .clearing hreplaces rfl⟩

/-- Every request within a session does one of the things there are to do. -/
theorem stepsTo_perform [MathLibrary] (d : Desk) {request : Request} (h : ∀ settings, request ≠ .restart settings) :
    StepsTo d request (d.perform request).1 := by
  cases request with
  | press key =>
      simp only [perform, Session.press]
      split_ifs
      · exact ⟨rfl, Or.inl rfl, .nothing (SameLedgers.refl _ _) rfl⟩
      · exact ⟨rfl, Or.inl rfl, .nothing (SameLedgers.refl _ _) rfl⟩
  | toggleMode => exact ⟨rfl, Or.inl rfl, .nothing (SameLedgers.refl _ _) rfl⟩
  | calculate expression =>
      have hconclude := stepsTo_conclude
        { d with session.input := expression.getD d.session.input } (.calculate expression)
        (expression.getD d.session.input) (Expression.evaluate (expression.getD d.session.input))
      exact ⟨hconclude.settings, hconclude.call, hconclude.effect⟩
  | applyFunction name => exact stepsTo_conclude d _ _ _
  | loadHistory => exact stepsTo_loadHistory d _
  | clearHistory => exact stepsTo_clearHistory d _
  | listStored limit =>
      exact ⟨rfl, Or.inr ⟨.recent limit, rfl⟩,
        .nothing (recent_cases d.world d.session.settings.historyPath limit).1 rfl⟩
  | insertStored input result =>
      refine ⟨rfl, Or.inr ⟨.insert input result, rfl⟩, ?_⟩
      rcases insert_cases d.world d.session.settings.historyPath input result with
        ⟨fault, -, -, hsame⟩ | ⟨-, hreplaces⟩
      · exact .nothing hsame rfl
      · exact .insertion input result rfl hreplaces rfl
  | restart settings => exact absurd rfl (h settings)

end Desk

/-- The path of a history names a file, and not memory. -/
def History.NamesFile (p : Path) : Prop :=
  ∃ q, (Address.ofPath p).toOption.bind Address.file? = some q

namespace History

variable {t u : FileTree} {p : Path} {l : Location}

theorem NamesFile.database (h : NamesFile p) (t : FileTree) : ∃ l, database? t p = some l := by
  obtain ⟨q, hq⟩ := h
  rw [database?, hq]
  exact ⟨_, rfl⟩

theorem SameLedgers.ledgerOf_eq (h : SameLedgers t p u) (hstart : ∀ a, u.start a = t.start a) :
    ledgerOf u p = ledgerOf t p := by
  cases hl : database? t p with
  | none =>
      rw [ledgerOf, ledgerOf, database?_eq_of_start hstart, hl]
      rfl
  | some l =>
      rw [ledgerOf_of_database ((database?_eq_of_start hstart p).trans hl)]
      exact h.own l hl

theorem Replaces.ledgerOf_eq (h : Replaces t p ledger u) (hstart : ∀ a, u.start a = t.start a)
    (hfile : NamesFile p) : ledgerOf u p = ledger := by
  obtain ⟨l, hl⟩ := hfile.database t
  rw [ledgerOf_of_database ((database?_eq_of_start hstart p).trans hl)]
  exact h.own l hl

theorem Replaces.ordered (h : Replaces t p ledger u) (hledger : ledger.Ordered)
    (hordered : ∀ m, (ledgerAt t m).Ordered) (m : Location) : (ledgerAt u m).Ordered := by
  by_cases hm : database? t p = some m
  · rw [h.own m hm]
    exact hledger
  · rcases h.other m hm with hsame | ⟨-, hlost⟩
    · rw [hsame]
      exact hordered m
    · rw [hlost]
      exact .empty

theorem ledgerOf_ordered (hordered : ∀ m, (ledgerAt t m).Ordered) (p : Path) :
    (ledgerOf t p).Ordered := by
  rw [ledgerOf]
  cases database? t p with
  | none => exact .empty
  | some l => exact hordered l

/-- What was opened leads there, when the file is off the passage of the path. -/
theorem leads_of_opened {opened : Opened} (h : (openLedger t p).2 = .ok opened)
    (hl : database? t p = some l) (hapart : l ∉ passage t p) : Leads t p l opened.isWritable :=
   ⟨⟨opened, h, (openLedger_ok h).1.trans hl, rfl⟩, hapart⟩

theorem openLedger_of_clear {w : World} {count : Nat} (h : (clear w p).2 = .ok count) :
    ∃ opened, (openLedger w.files p).2 = .ok opened := by
  rw [clear] at h
  rcases openWritable_cases w.files p with ⟨fault, -, heq⟩ | ⟨opened, hopened, -⟩
  · rw [heq] at h
    cases h
  · exact ⟨opened, hopened⟩

end History

/-! ### The records in view -/

namespace Desk

variable {d d' : Desk} {request : Request}

def performAll [MathLibrary] (d : Desk) (requests : List Request) : Desk :=
  requests.foldl (fun d request => (d.perform request).1) d

/-- All ledgers are in order, and the records in view are records of the session's ledger, if that is in
a file. -/
structure Coherent (d : Desk) : Prop where
  ordered : ∀ m, (ledgerAt d.world.files m).Ordered
  inView : NamesFile d.session.settings.historyPath → InView d.session.settings.historyLimit
    (ledgerOf d.world.files d.session.settings.historyPath) d.session.history

/-- The newest records of the session's ledger are in view. -/
def IsCurrent (d : Desk) : Prop :=
  d.session.history =
    (ledgerOf d.world.files d.session.settings.historyPath).recent d.session.settings.historyLimit

theorem StepsTo.start (h : StepsTo d request d') (a : Anchor) :
    d'.world.files.start a = d.world.files.start a := by
  rcases h.call with heq | ⟨c, heq⟩
  · rw [heq]
  · rw [heq]
    exact (perform_grows _ _ c).start a

theorem StepsTo.coherent (h : StepsTo d request d') (hd : d.Coherent) : d'.Coherent := by
  obtain ⟨hordered, hview⟩ := hd
  have hledger := ledgerOf_ordered hordered d.session.settings.historyPath
  have hstart := h.start
  rcases h.effect with ⟨hsame, heq⟩ | ⟨input, result, hreplaces, heq⟩ |
    ⟨input, result, -, hreplaces, heq⟩ | ⟨hreplaces, heq⟩ | ⟨hsame, heq⟩
  · refine ⟨Replaces.ordered hsame hledger hordered, ?_⟩
    rw [h.settings, heq, hsame.ledgerOf_eq hstart]
    exact hview
  · refine ⟨hreplaces.ordered (hledger.insert input result) hordered, ?_⟩
    rw [h.settings]
    intro hfile
    rw [heq, hreplaces.ledgerOf_eq hstart hfile]
    exact (hview hfile).insert hledger input result
  · refine ⟨hreplaces.ordered (hledger.insert input result) hordered, ?_⟩
    rw [h.settings]
    intro hfile
    rw [heq, hreplaces.ledgerOf_eq hstart hfile]
    exact (hview hfile).of_insert input result
  · refine ⟨hreplaces.ordered (.clear _) hordered, fun _ => ?_⟩
    rw [heq]
    exact .nil _ _
  · refine ⟨Replaces.ordered hsame hledger hordered, fun _ => ?_⟩
    rw [h.settings, heq, hsame.ledgerOf_eq hstart]
    exact .recent hledger _

theorem StepsTo.isCurrent (h : StepsTo d request d') (hd : d.IsCurrent) (hown : request.IsOwn)
    (hfile : NamesFile d.session.settings.historyPath) : d'.IsCurrent := by
  have hstart := h.start
  rw [IsCurrent] at hd ⊢
  rw [h.settings]
  rcases h.effect with ⟨hsame, heq⟩ | ⟨input, result, hreplaces, heq⟩ |
    ⟨input, result, hinserted, -, -⟩ | ⟨hreplaces, heq⟩ | ⟨hsame, heq⟩
  · rw [heq, hsame.ledgerOf_eq hstart]
    exact hd
  · rw [heq, hreplaces.ledgerOf_eq hstart hfile, hd]
    exact take_cons_take _ _ _
  · -- an insertion behind the session's back leaves the view a record short, but is no request of its own
    rw [hinserted] at hown
    exact hown.elim
  · rw [heq, hreplaces.ledgerOf_eq hstart hfile]
    exact List.take_nil.symm
  · rw [heq, hsame.ledgerOf_eq hstart]

/-- A request keeps a path usable that leads to the ledger. -/
theorem StepsTo.leads {l : Location} {writable : Bool} (h : StepsTo d request d')
    (hd : Leads d.world.files d.session.settings.historyPath l writable)
    (hindex : indexOf l ∉ passage d.world.files d.session.settings.historyPath) :
    Leads d'.world.files d'.session.settings.historyPath l writable := by
  rw [h.settings]
  rcases h.call with heq | ⟨c, heq⟩
  · rw [heq]
    exact hd
  · rw [heq]
    exact hd.perform_self (Or.inr hindex) c

/-! ### Agreement with the database -/

/-- Neither the file of the session's history nor the index of its log is on the passage of its path. -/
def IsApart (d : Desk) : Prop :=
  ∀ l, database? d.world.files d.session.settings.historyPath = some l →
    l ∉ passage d.world.files d.session.settings.historyPath ∧
      indexOf l ∉ passage d.world.files d.session.settings.historyPath

/-- What is in view agrees with the database. Whatever a list of the newest records gives is in view; and
the list is given, unless the path leads through the very file or the index of its log. -/
structure Agrees (d : Desk) : Prop where
  listed : ∀ records,
    (History.recent d.world d.session.settings.historyPath d.session.settings.historyLimit).2 =
      .ok records → records = d.session.history
  lists : d.IsApart →
    (History.recent d.world d.session.settings.historyPath d.session.settings.historyLimit).2 =
      .ok d.session.history

/-- What agreement rests on: the newest records are in view, and the path leads to the ledger. -/
structure Settled (d : Desk) : Prop where
  current : d.IsCurrent
  leads : d.IsApart →
    ∃ l writable, Leads d.world.files d.session.settings.historyPath l writable

theorem StepsTo.isApart (h : StepsTo d request d') (hd : d'.IsApart) : d.IsApart := by
  intro l hl
  have happly := hd l
  rw [h.settings, database?_eq_of_start h.start, passage_eq_of_start h.start] at happly
  exact happly hl

theorem StepsTo.settled (h : StepsTo d request d') (hd : d.Settled) (hown : request.IsOwn)
    (hfile : NamesFile d.session.settings.historyPath) : d'.Settled := by
  refine ⟨h.isCurrent hd.current hown hfile, fun hapart => ?_⟩
  obtain ⟨l, writable, hleads⟩ := hd.leads (h.isApart hapart)
  exact ⟨l, writable, h.leads hleads (h.isApart hapart l hleads.database?_eq).2⟩

theorem Settled.agrees (h : d.Settled) : d.Agrees := by
  have hlimit : (d.session.settings.historyLimit : Int) ≤ maxLimit := by
    have hmax := d.session.settings.limit_le_max
    rw [maxHistoryLimit] at hmax
    rw [maxLimit]
    omega
  have hone : (1 : Int) ≤ d.session.settings.historyLimit := by
    have hmin := d.session.settings.one_le_limit
    omega
  have hcurrent := h.current
  rw [IsCurrent] at hcurrent
  refine ⟨fun records hrecords => ?_, fun hapart => ?_⟩
  · rcases (recent_cases d.world d.session.settings.historyPath
      d.session.settings.historyLimit).2 with ⟨-, hfault⟩ | ⟨-, fault, -, hfault⟩ | ⟨-, opened, -, hok⟩
    · rw [hrecords] at hfault
      cases hfault
    · rw [hrecords] at hfault
      cases hfault
    · rw [hrecords, if_neg (Int.not_lt.2 hlimit)] at hok
      cases hok
      exact hcurrent.symm
  · obtain ⟨l, writable, hleads⟩ := h.leads hapart
    rw [hleads.recent_ok hone, if_neg (Int.not_lt.2 hlimit), hcurrent, hleads.ledgerOf_eq]
    rfl

/-- Once a list of the newest records gives what is in view, the desk is settled. -/
theorem settled_of_recent (hfile : NamesFile d.session.settings.historyPath)
    (h : (History.recent d.world d.session.settings.historyPath
      d.session.settings.historyLimit).2 = .ok d.session.history) : d.Settled := by
  rcases (recent_cases d.world d.session.settings.historyPath
    d.session.settings.historyLimit).2 with ⟨-, hfault⟩ | ⟨-, fault, -, hfault⟩ |
    ⟨-, opened, hopened, hok⟩
  · rw [h] at hfault
    cases hfault
  · rw [h] at hfault
    cases hfault
  · rw [h] at hok
    split_ifs at hok
    refine ⟨Except.ok.inj hok, fun hapart => ?_⟩
    obtain ⟨l, hl⟩ := hfile.database d.world.files
    exact ⟨l, _, leads_of_opened hopened hl (hapart l hl).1⟩

theorem StepsTo.settled_of_opened {opened : Opened} (h : StepsTo d request d')
    (hfile : NamesFile d.session.settings.historyPath)
    (hopened : (openLedger d.world.files d.session.settings.historyPath).2 = .ok opened)
    (hcurrent : d'.IsCurrent) : d'.Settled := by
  refine ⟨hcurrent, fun hapart => ?_⟩
  obtain ⟨l, hl⟩ := hfile.database d.world.files
  obtain ⟨hfree, hindex⟩ := h.isApart hapart l hl
  exact ⟨l, _, h.leads (leads_of_opened hopened hl hfree) hindex⟩

theorem settled_of_loadHistory {records : List Record}
    (hfile : NamesFile d.session.settings.historyPath) (h : d.loadHistory.2 = .ok records) :
    d.loadHistory.1.Settled := by
  have hsteps := stepsTo_loadHistory d .loadHistory
  have hstart := hsteps.start
  have hcases := recent_cases d.world d.session.settings.historyPath d.session.settings.historyLimit
  rw [loadHistory] at h hsteps hstart ⊢
  rcases hrecent : History.recent d.world d.session.settings.historyPath
    d.session.settings.historyLimit with ⟨world, fault | records'⟩
  · rw [hrecent] at h
    cases h
  · rw [hrecent] at hcases hsteps hstart
    obtain ⟨hsame, ⟨-, hfault⟩ | ⟨-, fault, -, hfault⟩ | ⟨-, opened, hopened, hok⟩⟩ := hcases
    · cases hfault
    · cases hfault
    · split_ifs at hok
      cases hok
      refine hsteps.settled_of_opened hfile hopened ?_
      rw [IsCurrent, hsame.ledgerOf_eq hstart]
      rfl

theorem settled_of_clearHistory {count : Nat} (hfile : NamesFile d.session.settings.historyPath)
    (h : d.clearHistory.2 = .ok count) : d.clearHistory.1.Settled := by
  have hsteps := stepsTo_clearHistory d .clearHistory
  have hstart := hsteps.start
  have hcases := clear_cases d.world d.session.settings.historyPath
  have hopen : ∀ count, (History.clear d.world d.session.settings.historyPath).2 = .ok count →
      ∃ opened, (openLedger d.world.files d.session.settings.historyPath).2 = .ok opened :=
    fun _ => openLedger_of_clear
  rw [clearHistory] at h hsteps hstart ⊢
  rcases hclear : History.clear d.world d.session.settings.historyPath with ⟨world, fault | count'⟩
  · rw [hclear] at h
    cases h
  · rw [hclear] at hcases hsteps hstart hopen
    rcases hcases with ⟨fault, -, hfault, -⟩ | ⟨-, hreplaces⟩
    · cases hfault
    · obtain ⟨opened, hopened⟩ := hopen count' rfl
      refine hsteps.settled_of_opened hfile hopened ?_
      rw [IsCurrent, hreplaces.ledgerOf_eq hstart hfile]
      exact List.take_nil.symm

theorem reply_of_replying {α : Type} {f : α → Reply} {x : Desk × Except HistoryFault α}
    {reply : Reply} (h : (replying f x).2 = .ok reply) : ∃ a, x.2 = .ok a ∧ f a = reply := by
  rw [replying] at h
  cases hx : x.2 with
  | error fault =>
      rw [hx] at h
      cases h
  | ok a =>
      rw [hx] at h
      exact ⟨a, rfl, Except.ok.inj h⟩

theorem exists_of_replying {α : Type} {f : α → Reply} {x : Desk × Except HistoryFault α}
    {reply : Reply} (h : (replying f x).2 = .ok reply) : ∃ a, x.2 = .ok a := by
  obtain ⟨a, ha, -⟩ := reply_of_replying h
  exact ⟨a, ha⟩

theorem fault_of_replying {α : Type} {f : α → Reply} {x : Desk × Except HistoryFault α}
    {fault : HistoryFault} (h : (replying f x).2 = .error fault) : x.2 = .error fault := by
  rw [replying] at h
  cases hx : x.2 with
  | error fault' =>
      rw [hx] at h
      cases h
      rfl
  | ok a =>
      rw [hx] at h
      cases h

section Library

variable [MathLibrary]

theorem coherent_performAll {requests : List Request} (h : d.Coherent) :
    (d.performAll requests).Coherent := by
  induction requests generalizing d with
  | nil => exact h
  | cons request requests ih =>
      by_cases hrestart : ∃ settings, request = .restart settings
      · obtain ⟨settings, rfl⟩ := hrestart
        exact ih ⟨h.ordered, fun _ => .nil _ _⟩
      · exact ih ((stepsTo_perform d fun settings heq => hrestart ⟨settings, heq⟩).coherent h)

theorem settled_performAll {requests : List Request} (h : d.Settled)
    (hfile : NamesFile d.session.settings.historyPath)
    (hown : ∀ request ∈ requests, request.IsOwn) : (d.performAll requests).Settled := by
  induction requests generalizing d with
  | nil => exact h
  | cons request requests ih =>
      rw [List.forall_mem_cons] at hown
      have hsteps : StepsTo d request (d.perform request).1 := by
        refine stepsTo_perform d fun settings heq => ?_
        rw [heq] at hown
        exact hown.1
      refine ih (hsteps.settled h hown.1 hfile) ?_ hown.2
      rw [hsteps.settings]
      exact hfile

/-- The records in view agree with the ledger, in every state that requests lead to, when the path of the
session names a file. There are no more of them than the limit, their numbers fall, and each is a record
of the session's ledger. Once a list of the newest records gives what is in view, and after records were
loaded or cleared, the two go on agreeing whatever the session does, unless a record is inserted behind
its back. -/
theorem view_agrees {w : World} {settings : Settings} {requests : List Request}
    (hordered : ∀ m, (ledgerAt w.files m).Ordered)
    (hfile : NamesFile (performAll ⟨.new settings, w⟩ requests).session.settings.historyPath) :
    let d := performAll ⟨.new settings, w⟩ requests
    let view := d.session.history
    let newest := History.recent d.world d.session.settings.historyPath
      d.session.settings.historyLimit
    (view.length ≤ d.session.settings.historyLimit ∧
      view.Pairwise (fun newer older => older.id < newer.id) ∧
      ∃ l, database? d.world.files d.session.settings.historyPath = some l ∧
        ∀ r ∈ view, r ∈ (ledgerAt d.world.files l).records) ∧
      ∀ later : List Request, (∀ request ∈ later, request.IsOwn) →
        (newest.2 = .ok view → (d.performAll later).Agrees) ∧
          ∀ request, request = .loadHistory ∨ request = .clearHistory →
            ∀ reply, (d.perform request).2 = .ok reply →
              ((d.perform request).1.performAll later).Agrees := by
  intro d view newest
  obtain ⟨l, hl⟩ := hfile.database d.world.files
  have hcoherent : d.Coherent := coherent_performAll ⟨hordered, fun _ => .nil _ _⟩
  have hview := hcoherent.inView hfile
  refine ⟨⟨hview.length_le, hview.descending, l, hl, ?_⟩, fun later hown => ⟨fun hnewest => ?_, ?_⟩⟩
  · rw [← ledgerOf_of_database hl]
    exact hview.stored
  · exact (settled_performAll (settled_of_recent hfile hnewest) hfile hown).agrees
  · have hafter : ∀ d' : Desk, d'.session.settings = d.session.settings → d'.Settled →
        (d'.performAll later).Agrees := by
      intro d' hsettings hsettled
      refine (settled_performAll hsettled ?_ hown).agrees
      rw [hsettings]
      exact hfile
    rintro request (rfl | rfl) reply hreply
    · obtain ⟨records, hload⟩ := exists_of_replying hreply
      exact hafter _ (stepsTo_loadHistory d .loadHistory).settings (settled_of_loadHistory hfile hload)
    · obtain ⟨count, hclear⟩ := exists_of_replying hreply
      exact hafter _ (stepsTo_clearHistory d .clearHistory).settings
        (settled_of_clearHistory hfile hclear)

end Library

attribute [local instance] MathLibrary.ofSeries

theorem view_agrees_of_insertion :
    let w : World := ⟨⟨[(["w"], .directory)], ["w"]⟩, []⟩
    let inMemory : Settings := ⟨Path.ofString ":memory:", 20, .warning, by decide, by decide⟩
    let settings : Settings := ⟨Path.ofString "sums.db", 2, .warning, by decide, by decide⟩
    let requests : List Request :=
      [.applyFunction "sin", .restart settings, .calculate (some "1+1"), .insertStored "x" "y",
        .calculate (some "2*3")]
    let later : List Request := [.press "7", .calculate none, .calculate (some "1/0"), .listStored 9]
    let d := performAll ⟨.new inMemory, w⟩ requests
    (∀ m, (ledgerAt w.files m).Ordered) ∧ NamesFile d.session.settings.historyPath ∧
      (∀ request ∈ later, request.IsOwn) ∧
      d.session.history = [⟨3, "2*3", "6"⟩, ⟨1, "1+1", "2"⟩] ∧
      (d.perform .loadHistory).2 = .ok (.records [⟨3, "2*3", "6"⟩, ⟨2, "x", "y"⟩]) ∧
      ((d.perform .loadHistory).1.performAll later).Agrees := by
  intro w inMemory settings requests later d
  have hordered : ∀ m, (ledgerAt w.files m).Ordered := by
    intro m
    have hempty : ledgerAt w.files m = .empty := by
      rw [ledgerAt, FileTree.get?, lookup_cons_eq_ite]
      split_ifs
      · rfl
      · rfl
      · rfl
    rw [hempty]
    exact .empty
  have hfile : NamesFile d.session.settings.historyPath :=
    ⟨Path.ofString "sums.db", by decide +kernel⟩
  have hown : ∀ request ∈ later, request.IsOwn := by simp [later, Request.IsOwn]
  have hreply : (d.perform .loadHistory).2 = .ok (.records [⟨3, "2*3", "6"⟩, ⟨2, "x", "y"⟩]) := by
    decide +kernel
  have hagrees := (view_agrees hordered hfile).2 later hown
  exact ⟨hordered, hfile, hown, by decide +kernel, hreply,
    hagrees.2 .loadHistory (Or.inl rfl) _ hreply⟩

/-- Paths for which the view strays: each call on memory sees a ledger of its own, and a path through its
own file cannot be followed any more once the file is there. -/
theorem view_strays :
    let w : World := ⟨⟨[(["w"], .directory)], ["w"]⟩, []⟩
    let new (path : String) : Desk :=
      ⟨.new ⟨Path.ofString path, 20, .warning, by decide, by decide⟩, w⟩
    let inMemory := (new ":memory:").performAll [.calculate (some "1"), .calculate (some "2")]
    let crossed := new "file:d.db/x/../../d.db"
    let created := (crossed.perform .loadHistory).1
    inMemory.session.history = [⟨1, "2", "2"⟩, ⟨1, "1", "1"⟩] ∧
      ¬ inMemory.session.history.Pairwise (fun newer older => older.id < newer.id) ∧
      (History.recent inMemory.world inMemory.session.settings.historyPath 20).2 = .ok [] ∧
      (History.recent crossed.world crossed.session.settings.historyPath 20).2 =
        .ok crossed.session.history ∧
      (History.recent created.world created.session.settings.historyPath 20).2 =
        .error .notOpened := by
  decide +kernel

end Desk
end Reckoner
