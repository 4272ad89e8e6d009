import Mathlib.Data.List.Basic
import Reckoner.History.LedgerFiles

/-! What the storage does to the files of a ledger. Opening keeps every directory and makes none, keeps the
ledger of the main file and puts no other ledger anywhere (`openAs_tended`); it fails for faults of the
storage alone. What it opens is the ledger of the main file, which a blank one has become, and it leaves
the files such that they can be opened again in the same way (`openAs_ready`, `Ready.openAs`). -/

namespace Reckoner
namespace History

/-- The ledger of an entry; anything but a ledger counts as an empty one. -/
def ledgerIn : Option Entry → Ledger
  | some (.file (.ledger ledger)) => ledger
  | _ => .empty

/-- What the storage may make of an entry, beside leaving it as it is: something without records in the place
of something that is no directory. -/
def Yields (e e' : Option Entry) : Prop :=
  e' = e ∨ (e ≠ some .directory ∧ e' ≠ some .directory ∧ ledgerIn e' = .empty)

namespace Yields

variable {e e' e'' : Option Entry}

theorem refl (e : Option Entry) : Yields e e := Or.inl rfl

theorem trans (h : Yields e e') (k : Yields e' e'') : Yields e e'' := by
  rcases h with rfl | ⟨he, he', hempty⟩
  · exact k
  · rcases k with rfl | ⟨-, he'', hempty'⟩
    · exact Or.inr ⟨he, he', hempty⟩
    · exact Or.inr ⟨he, he'', hempty'⟩

theorem directory_iff (h : Yields e e') : e' = some .directory ↔ e = some .directory := by
  rcases h with rfl | ⟨he, he', -⟩
  · exact Iff.rfl
  · exact ⟨fun h => absurd h he', fun h => absurd h he⟩

theorem ledgerIn_cases (h : Yields e e') : ledgerIn e' = ledgerIn e ∨ ledgerIn e' = .empty := by
  rcases h with rfl | ⟨-, -, hempty⟩
  · exact Or.inl rfl
  · exact Or.inr hempty

end Yields

theorem isDirectory_iff {e : Option Entry} : isDirectory e = true ↔ e = some .directory := by
  rcases e with _ | _ | content <;> simp [isDirectory]

theorem ne_directory_of_isFilled {e : Option Entry} (h : isFilled e = true) : e ≠ some .directory := by
  rintro rfl
  cases h

theorem isFilled_of_isPending {e : Option Entry} (h : isPending e = true) : isFilled e = true := by
  rcases e with _ | _ | ((_ | ⟨byte, bytes⟩) | ledger) <;> first | rfl | cases h

theorem yields_none {e : Option Entry} (h : isFilled e = true) : Yields e none :=
  Or.inr ⟨ne_directory_of_isFilled h, fun h => (by cases h), rfl⟩

theorem yields_emptied (e : Option Entry) : Yields e (emptied e) := by
  rw [emptied]
  split_ifs with hfilled
  · exact yields_none hfilled
  · exact .refl e

theorem isFilled_emptied (e : Option Entry) : isFilled (emptied e) = false := by
  rw [emptied]
  split_ifs with hfilled
  · rfl
  · exact Bool.not_eq_true _ ▸ hfilled

theorem yields_newIndex {e : Option Entry} (h : isDirectory e = false) : Yields e newIndex := by
  refine Or.inr ⟨fun he => ?_, fun he => (by cases he), rfl⟩
  rw [he] at h
  cases h

namespace LedgerFiles

variable {s s' s'' : LedgerFiles} {l : Location} {access : Access} {opened : Opened} {writable : Bool}

/-- An entry is as it was, or taken away. -/
def Loses (e e' : Option Entry) : Prop :=
  e' = e ∨ e' = none

theorem Loses.trans {e e' e'' : Option Entry} (h : Loses e e') (k : Loses e' e'') : Loses e e'' := by
  rcases k with rfl | rfl
  · exact h
  · exact Or.inr rfl

theorem loses_emptied (e : Option Entry) : Loses e (emptied e) := by
  rw [emptied]
  split_ifs
  · exact Or.inr rfl
  · exact Or.inl rfl

theorem loses_journal_takeBack (s : LedgerFiles) : Loses s.journal s.takeBack.journal := by
  rw [takeBack]
  split_ifs
  · exact Or.inr rfl
  · exact Or.inl rfl

theorem loses_journal_save (s : LedgerFiles) (opened : Opened) (ledger : Ledger) :
    Loses s.journal (s.save opened ledger).journal := by
  simp only [save]
  split_ifs
  · exact Or.inl rfl
  · exact Or.inr rfl

/-- What the storage may make of the files of a ledger, beside changing the ledger. -/
structure Tended (s s' : LedgerFiles) : Prop where
  main : Yields s.main s'.main
  journal : Yields s.journal s'.journal
  log : Yields s.log s'.log
  index : Yields s.index s'.index
  ledger : ledgerIn s'.main = ledgerIn s.main

namespace Tended

theorem refl (s : LedgerFiles) : s.Tended s :=
  ⟨.refl _, .refl _, .refl _, .refl _, rfl⟩

theorem trans (h : s.Tended s') (k : s'.Tended s'') : s.Tended s'' :=
  ⟨h.main.trans k.main, h.journal.trans k.journal, h.log.trans k.log, h.index.trans k.index,
    k.ledger.trans h.ledger⟩

end Tended

/-- A main file that is missing, or blank. -/
def IsBlank (s : LedgerFiles) : Prop :=
  s.main = none ∨ ∃ bytes, s.main = some (.file (.plain bytes))

theorem IsBlank.ledgerIn_eq (h : s.IsBlank) : ledgerIn s.main = .empty := by
  rcases h with h | ⟨bytes, h⟩ <;> rw [h] <;> rfl

theorem IsBlank.ne_directory (h : s.IsBlank) : s.main ≠ some .directory := by
  rcases h with h | ⟨bytes, h⟩ <;> rw [h] <;> exact fun h => by cases h

theorem IsBlank.yields (h : s.IsBlank) {content : FileContent}
    (hempty : ledgerIn (some (.file content)) = .empty) : Yields s.main (some (.file content)) :=
  Or.inr ⟨h.ne_directory, fun h => (by cases h), hempty⟩

theorem IsBlank.yields_or (h : s.IsBlank) :
    Yields s.main (s.main.or (some (.file (.plain [])))) := by
  rcases h with h | ⟨bytes, h⟩
  · rw [h]
    exact Or.inr ⟨fun h => (by cases h), fun h => (by cases h), rfl⟩
  · rw [h]
    exact .refl _

theorem blank_tended (h : s.IsBlank) : s.Tended s.blank := by
  have hempty : ledgerIn s.blank.main = ledgerIn s.main := by
    rw [blank]
    rcases h with h | ⟨bytes, h⟩ <;> rw [h] <;> rfl
  exact ⟨h.yields_or, yields_emptied _, .refl _, .refl _, hempty⟩

theorem create_tended (h : s.IsBlank) (l : Location) : s.Tended (s.create l).1 := by
  have hblank := blank_tended h
  rw [create]
  split_ifs with hlog hroom
  · exact hblank
  · exact ⟨hblank.main, hblank.journal, yields_emptied _, .refl _, hblank.ledger⟩
  · simp only [Bool.or_eq_true, not_or, isDirectory_iff] at hroom
    exact ⟨h.yields rfl, Or.inr ⟨hroom.1, fun h => (by cases h), rfl⟩, yields_emptied _, .refl _,
      h.ledgerIn_eq.symm⟩

theorem refuseBlank_tended (s : LedgerFiles) : s.Tended s.refuseBlank.1 := by
  rw [refuseBlank]
  split_ifs with hlog
  · exact .refl s
  · exact ⟨.refl _, .refl _, yields_emptied _, .refl _, rfl⟩

theorem takeBack_tended (s : LedgerFiles) : s.Tended s.takeBack := by
  rw [takeBack]
  split_ifs with hpending
  · exact ⟨.refl _, yields_none (isFilled_of_isPending hpending), .refl _, .refl _, rfl⟩
  · exact .refl s

theorem reindex_tended (s : LedgerFiles) : s.Tended s.reindex := by
  rw [reindex]
  split_ifs with hindex
  · exact .refl s
  · exact ⟨.refl _, .refl _, .refl _, yields_newIndex (Bool.not_eq_true _ ▸ hindex), rfl⟩

theorem openLogged_tended (l : Location) (access : Access) (ledger? : Option Ledger)
    (hlog : isFilled s.log = true) : s.Tended (s.openLogged l access ledger?).1 := by
  cases ledger? with
  | none =>
      rw [openLogged]
      split_ifs with hlocked
      · exact .refl s
      · exact reindex_tended s
  | some ledger =>
      rw [openLogged]
      split_ifs with hlocked hread
      · exact .refl s
      · exact reindex_tended s
      · simp only [Bool.or_eq_true, not_or, isDirectory_iff] at hread
        exact ⟨.refl _, .refl _, yields_none hlog, Or.inr ⟨hread.2, fun h => (by cases h), rfl⟩, rfl⟩

theorem openWhole_tended (s : LedgerFiles) (l : Location) (access : Access)
    (ledger? : Option Ledger) : s.Tended (s.openWhole l access ledger?).1 := by
  unfold openWhole
  split_ifs with hlog hfilled
  · exact .refl s
  · exact openLogged_tended l access ledger? hfilled
  · cases ledger? with
    | none => exact .refl s
    | some ledger => exact .refl s

theorem openFilled_tended (s : LedgerFiles) (l : Location) (access : Access)
    (ledger? : Option Ledger) : s.Tended (s.openFilled l access ledger?).1 := by
  rw [openFilled]
  split_ifs with hjournal hread
  · exact .refl s
  · exact .refl s
  · exact (takeBack_tended s).trans (openWhole_tended _ l access ledger?)

theorem openAs_tended (s : LedgerFiles) (l : Location) (access : Access) :
    s.Tended (s.openAs l access).1 := by
  rw [openAs]
  rcases hmain : s.main with _ | _ | bytes | ledger
  · simp only
    split_ifs with hcreating
    · exact create_tended (Or.inl hmain) l
    · exact .refl s
  · exact .refl s
  · simp only
    split_ifs with hlong hread
    · exact openFilled_tended s l access none
    · exact refuseBlank_tended s
    · exact create_tended (Or.inr ⟨bytes, hmain⟩) l
  · exact openFilled_tended s l access (some ledger)

variable {fault : HistoryFault}

theorem isStorage_of_openLogged {ledger? : Option Ledger}
    (h : (s.openLogged l access ledger?).2 = .error fault) : fault.isStorage = true := by
  cases ledger? with
  | none =>
      rw [openLogged] at h
      split_ifs at h <;> cases h <;> rfl
  | some ledger =>
      rw [openLogged] at h
      split_ifs at h
      cases h
      rfl

theorem isStorage_of_openWhole {ledger? : Option Ledger}
    (h : (s.openWhole l access ledger?).2 = .error fault) : fault.isStorage = true := by
  unfold openWhole at h
  split_ifs at h with hlog hfilled
  · cases h
    rfl
  · exact isStorage_of_openLogged h
  · cases ledger? with
    | none =>
        cases h
        rfl
    | some ledger => cases h

theorem isStorage_of_openFilled {ledger? : Option Ledger}
    (h : (s.openFilled l access ledger?).2 = .error fault) : fault.isStorage = true := by
  rw [openFilled] at h
  split_ifs at h with hjournal hread
  · cases h
    rfl
  · cases h
    rfl
  · exact isStorage_of_openWhole h

theorem isStorage_of_create (h : (s.create l).2 = .error fault) : fault.isStorage = true := by
  rw [create] at h
  split_ifs at h with hlog hroom
  · cases h
    rfl
  · cases h
    rfl

theorem isStorage_of_openAs (h : (s.openAs l access).2 = .error fault) : fault.isStorage = true := by
  rw [openAs] at h
  rcases hmain : s.main with _ | _ | bytes | ledger <;> simp only [hmain] at h
  · split_ifs at h with hcreating
    · exact isStorage_of_create h
    · cases h
      rfl
  · split_ifs at h with hread <;> cases h <;> rfl
  · split_ifs at h with hlong hread
    · exact isStorage_of_openFilled h
    · rw [refuseBlank] at h
      split_ifs at h <;> cases h <;> rfl
    · exact isStorage_of_create h
  · exact isStorage_of_openFilled h

/-! ### Opening again -/

/-- Files as opening leaves them: a ledger, no change to take back, and a log that holds something only where the
ledger was opened to be read alone. -/
structure Ready (access : Access) (writable : Bool) (s : LedgerFiles) : Prop where
  ledger : ∃ ledger, s.main = some (.file (.ledger ledger))
  journal : isDirectory s.journal = false
  ended : isPending s.journal = false
  log : isDirectory s.log = false
  empty : isFilled s.log = false → writable = (access != .readOnly)
  filled : isFilled s.log = true → writable = false ∧
    (decide (access = .readOnly) || isDirectory s.index) = true ∧
    (isDirectory s.index && hasHeader s.log) = false

theorem Ready.openAs_eq (h : s.Ready access writable) (l : Location) :
    ∃ opened, (s.openAs l access).2 = .ok opened ∧ opened.isWritable = writable := by
  obtain ⟨ledger, hmain⟩ := h.ledger
  have hback : s.takeBack = s := by
    rw [takeBack, if_neg (by rw [h.ended]; exact Bool.false_ne_true)]
  rw [openAs, hmain]
  simp only [openFilled, h.journal, h.ended, hback, openWhole, h.log, Bool.false_and,
    Bool.false_eq_true, if_false]
  cases hfilled : isFilled s.log with
  | false => exact ⟨_, rfl, (h.empty hfilled).symm⟩
  | true =>
      obtain ⟨hwritable, hread, hlocked⟩ := h.filled hfilled
      simp only [openLogged, hread, hlocked, if_true, Bool.false_eq_true, if_false]
      exact ⟨_, rfl, hwritable.symm⟩

theorem isDirectory_reindex (s : LedgerFiles) : isDirectory s.reindex.index = isDirectory s.index := by
  rw [reindex]
  split_ifs with hindex
  · rfl
  · exact (Bool.not_eq_true _ ▸ hindex : isDirectory s.index = false).symm

theorem openLogged_ready {ledger : Ledger} (hmain : s.main = some (.file (.ledger ledger)))
    (hjournal : isDirectory s.journal = false) (hended : isPending s.journal = false)
    (hfilled : isFilled s.log = true)
    (h : (s.openLogged l access (some ledger)).2 = .ok opened) :
    opened.location = some l ∧ opened.ledger = ledger ∧
      (s.openLogged l access (some ledger)).1.Ready access opened.isWritable := by
  have hkept : s.reindex.main = s.main ∧ s.reindex.journal = s.journal ∧ s.reindex.log = s.log := by
    rw [reindex]
    split_ifs <;> exact ⟨rfl, rfl, rfl⟩
  have hlog : isDirectory s.log = false := by
    rw [← Bool.not_eq_true, isDirectory_iff]
    exact ne_directory_of_isFilled hfilled
  rw [openLogged] at h ⊢
  split_ifs at h ⊢ with hlocked hread
  · cases h
    refine ⟨rfl, rfl, ⟨⟨ledger, hkept.1.trans hmain⟩, ?_, ?_, ?_, fun hempty => ?_, fun _ => ?_⟩⟩
    · rw [hkept.2.1, hjournal]
    · rw [hkept.2.1, hended]
    · rw [hkept.2.2, hlog]
    · rw [hkept.2.2, hfilled] at hempty
      cases hempty
    · rw [isDirectory_reindex, hkept.2.2]
      exact ⟨rfl, hread, Bool.not_eq_true _ ▸ hlocked⟩
  · cases h
    rw [Bool.or_eq_true, not_or, decide_eq_true_eq] at hread
    exact ⟨rfl, rfl, ⟨⟨ledger, hmain⟩, hjournal, hended, rfl, fun _ => (bne_iff_ne.2 hread.1).symm,
      fun hnone => by cases hnone⟩⟩

theorem openWhole_ready {ledger : Ledger} (hmain : s.main = some (.file (.ledger ledger)))
    (hjournal : isDirectory s.journal = false) (hended : isPending s.journal = false)
    (h : (s.openWhole l access (some ledger)).2 = .ok opened) :
    opened.location = some l ∧ opened.ledger = ledger ∧
      (s.openWhole l access (some ledger)).1.Ready access opened.isWritable := by
  rw [openWhole] at h ⊢
  split_ifs at h ⊢ with hlog hfilled
  · exact openLogged_ready hmain hjournal hended hfilled h
  · cases h
    exact ⟨rfl, rfl, ⟨⟨ledger, hmain⟩, hjournal, hended, Bool.not_eq_true _ ▸ hlog, fun _ => rfl,
      fun hfilled' => absurd hfilled' hfilled⟩⟩

theorem openFilled_ready {ledger : Ledger} (hmain : s.main = some (.file (.ledger ledger)))
    (h : (s.openFilled l access (some ledger)).2 = .ok opened) :
    opened.location = some l ∧ opened.ledger = ledger ∧
      (s.openFilled l access (some ledger)).1.Ready access opened.isWritable := by
  rw [openFilled] at h ⊢
  split_ifs at h ⊢ with hjournal hread
  refine openWhole_ready ?_ ?_ ?_ h
  · rw [takeBack]
    split_ifs <;> exact hmain
  · rw [takeBack]
    split_ifs
    · rfl
    · exact Bool.not_eq_true _ ▸ hjournal
  · rw [takeBack]
    split_ifs with hpending
    · rfl
    · exact Bool.not_eq_true _ ▸ hpending

theorem openFilled_none (s : LedgerFiles) (l : Location) (access : Access) :
    (s.openFilled l access none).2 ≠ .ok opened := by
  intro h
  rw [openFilled] at h
  split_ifs at h
  rw [openWhole] at h
  split_ifs at h
  rw [openLogged] at h
  split_ifs at h

theorem create_ready (haccess : access ≠ .readOnly) (hblank : s.IsBlank)
    (h : (s.create l).2 = .ok opened) :
    opened.location = some l ∧ opened.ledger = ledgerIn s.main ∧
      (s.create l).1.Ready access opened.isWritable := by
  rw [create] at h ⊢
  split_ifs at h ⊢ with hlog hroom
  cases h
  refine ⟨rfl, hblank.ledgerIn_eq.symm, ⟨⟨.empty, rfl⟩, rfl, rfl, ?_,
    fun _ => (bne_iff_ne.2 haccess).symm, fun hfilled => ?_⟩⟩
  · rw [← Bool.not_eq_true, isDirectory_iff, (yields_emptied s.log).directory_iff, ← isDirectory_iff]
    exact hlog
  · rw [isFilled_emptied] at hfilled
    cases hfilled

/-- What is opened is the ledger of the main file, and then the files are such that it can be opened again. -/
theorem openAs_ready (h : (s.openAs l access).2 = .ok opened) :
    opened.location = some l ∧ opened.ledger = ledgerIn s.main ∧
      (s.openAs l access).1.Ready access opened.isWritable := by
  rw [openAs] at h ⊢
  rcases hmain : s.main with _ | _ | bytes | ledger <;> simp only [hmain] at h ⊢
  · split_ifs at h ⊢ with hcreating
    have hready := create_ready (?_ : access ≠ .readOnly) (Or.inl hmain) h
    · rw [hmain] at hready
      exact hready
    · rw [hcreating]
      exact fun hread => by cases hread
  · cases h
  · split_ifs at h ⊢ with hlong hread
    · exact absurd h (openFilled_none s l access)
    · rw [refuseBlank] at h
      split_ifs at h
    · have hready := create_ready hread (Or.inr ⟨bytes, hmain⟩) h
      rw [hmain] at hready
      exact hready
  · exact openFilled_ready hmain h

theorem Ready.main_eq (h : s'.Ready access writable) (htended : s.Tended s') :
    s'.main = some (.file (.ledger (ledgerIn s.main))) := by
  obtain ⟨ledger, hmain⟩ := h.ledger
  have hledger := htended.ledger
  rw [hmain] at hledger
  rw [hmain, ← hledger]
  rfl

theorem Ready.save (h : s.Ready access writable) (opened : Opened) (ledger : Ledger) :
    (s.save opened ledger).Ready access writable := by
  refine ⟨⟨ledger, rfl⟩, ?_, ?_, h.log, h.empty, h.filled⟩ <;>
    rcases loses_journal_save s opened ledger with hsame | hnone
  · rw [hsame, h.journal]
  · rw [hnone]
    rfl
  · rw [hsame, h.ended]
  · rw [hnone]
    rfl

/-- The index does not matter where there is no log. -/
theorem Ready.congr (h : s.Ready access writable) (hmain : s'.main = s.main)
    (hjournal : s'.journal = s.journal) (hlog : s'.log = s.log)
    (hindex : writable = true ∨ s'.index = s.index) : s'.Ready access writable := by
  refine ⟨hmain ▸ h.ledger, hjournal ▸ h.journal, hjournal ▸ h.ended, hlog ▸ h.log, hlog ▸ h.empty,
    fun hfilled => ?_⟩
  rw [hlog] at hfilled
  rcases hindex with rfl | hsame
  · cases (h.filled hfilled).1
  · rw [hsame, hlog]
    exact h.filled hfilled

/-- Files that are ready to be changed are so for every access that allows a change. -/
theorem Ready.of_access (h : s.Ready access true) {access' : Access} (haccess : access' ≠ .readOnly) :
    s.Ready access' true := by
  refine ⟨h.ledger, h.journal, h.ended, h.log, fun _ => (bne_iff_ne.2 haccess).symm, fun hfilled => ?_⟩
  cases (h.filled hfilled).1

theorem Ready.access_ne (h : s.Ready access true) : access ≠ .readOnly := by
  cases hfilled : isFilled s.log with
  | false => exact bne_iff_ne.1 (h.empty hfilled).symm
  | true => cases (h.filled hfilled).1

/-- What opening makes of the entries beside a ledger: it takes some away, and puts nothing in their place but an
index for a ledger that is to be read alone. -/
structure SidesLose (writable : Bool) (s s' : LedgerFiles) : Prop where
  journal : Loses s.journal s'.journal
  log : Loses s.log s'.log
  index : writable = true → Loses s.index s'.index

theorem openLogged_sides {ledger : Ledger} (h : (s.openLogged l access (some ledger)).2 = .ok opened) :
    SidesLose opened.isWritable s (s.openLogged l access (some ledger)).1 := by
  rw [openLogged] at h ⊢
  split_ifs at h ⊢ with hlocked hread
  · cases h
    rw [reindex]
    split_ifs <;> exact ⟨Or.inl rfl, Or.inl rfl, fun hwritable => by cases hwritable⟩
  · cases h
    exact ⟨Or.inl rfl, Or.inr rfl, fun _ => Or.inr rfl⟩

theorem openWhole_sides {ledger : Ledger} (h : (s.openWhole l access (some ledger)).2 = .ok opened) :
    SidesLose opened.isWritable s (s.openWhole l access (some ledger)).1 := by
  rw [openWhole] at h ⊢
  split_ifs at h ⊢ with hlog hfilled
  · exact openLogged_sides h
  · exact ⟨Or.inl rfl, Or.inl rfl, fun _ => Or.inl rfl⟩

theorem openFilled_sides {ledger : Ledger}
    (h : (s.openFilled l access (some ledger)).2 = .ok opened) :
    SidesLose opened.isWritable s (s.openFilled l access (some ledger)).1 := by
  rw [openFilled] at h ⊢
  split_ifs at h ⊢ with hjournal hread
  have hwhole := openWhole_sides h
  have hkept : s.takeBack.log = s.log ∧ s.takeBack.index = s.index := by
    rw [takeBack]
    split_ifs <;> exact ⟨rfl, rfl⟩
  exact ⟨(loses_journal_takeBack s).trans hwhole.journal, hkept.1 ▸ hwhole.log,
    hkept.2 ▸ hwhole.index⟩

theorem openAs_sides (h : (s.openAs l access).2 = .ok opened) :
    SidesLose opened.isWritable s (s.openAs l access).1 := by
  have hcreate : ∀ {opened : Opened}, (s.create l).2 = .ok opened →
      SidesLose opened.isWritable s (s.create l).1 := by
    intro opened h
    rw [create] at h ⊢
    split_ifs at h ⊢
    exact ⟨Or.inr rfl, loses_emptied _, fun _ => Or.inl rfl⟩
  rw [openAs] at h ⊢
  rcases hmain : s.main with _ | _ | bytes | ledger <;> simp only [hmain] at h ⊢
  · split_ifs at h ⊢
    exact hcreate h
  · cases h
  · split_ifs at h ⊢ with hlong hread
    · exact absurd h (openFilled_none s l access)
    · rw [refuseBlank] at h
      split_ifs at h
    · exact hcreate h
  · exact openFilled_sides h

end LedgerFiles

/-! ### In a tree -/

variable {l l' m : Location}

theorem ne_root_of_beside (l : Location) (suffix : String) : beside l suffix ≠ [] := by
  rw [beside]
  exact List.append_ne_nil_of_right_ne_nil _ (List.cons_ne_nil _ _)

theorem dropLast_beside (l : Location) (suffix : String) : (beside l suffix).dropLast = l.dropLast := by
  rw [beside, List.dropLast_concat]

theorem name_beside (l : Location) (suffix : String) :
    (beside l suffix).getLastD "" = l.getLastD "" ++ suffix := by
  rw [beside, List.getLastD_concat]

theorem beside_ne_self {suffix : String} (h : suffix ≠ "") (l : Location) : beside l suffix ≠ l := by
  intro heq
  have hname := name_beside l suffix
  rw [heq] at hname
  exact h (String.append_right_inj _ |>.1 (hname.symm.trans (String.append_empty).symm))

/-- Names that end differently are not the same. -/
theorem beside_ne_of_not_suffix {x y : String} (h : ¬x.toList <:+ y.toList) (k : ¬y.toList <:+ x.toList)
    (l l' : Location) : beside l x ≠ beside l' y := by
  intro heq
  have hname := name_beside l x
  rw [heq, name_beside l' y] at hname
  have htext := congrArg String.toList hname
  rw [String.toList_append, String.toList_append] at htext
  have hx : x.toList <:+ (l.getLastD "").toList ++ x.toList := List.suffix_append _ _
  have hy : y.toList <:+ (l.getLastD "").toList ++ x.toList := htext ▸ List.suffix_append _ _
  rcases Nat.le_total x.toList.length y.toList.length with hle | hle
  · exact h (List.suffix_of_suffix_length_le hx hy hle)
  · exact k (List.suffix_of_suffix_length_le hy hx hle)

theorem journalOf_ne_logOf (l l' : Location) : journalOf l ≠ logOf l' :=
  beside_ne_of_not_suffix (by decide) (by decide) l l'

theorem journalOf_ne_indexOf (l l' : Location) : journalOf l ≠ indexOf l' :=
  beside_ne_of_not_suffix (by decide) (by decide) l l'

theorem logOf_ne_indexOf (l l' : Location) : logOf l ≠ indexOf l' :=
  beside_ne_of_not_suffix (by decide) (by decide) l l'

theorem mem_sides : m ∈ sides l ↔ m = journalOf l ∨ m = logOf l ∨ m = indexOf l := by
  rw [sides, List.mem_cons, List.mem_cons, List.mem_singleton]

theorem not_mem_sides_self (l : Location) : l ∉ sides l := by
  intro h
  rcases mem_sides.1 h with h | h | h <;> exact beside_ne_self (by decide) l h.symm

theorem eq_of_beside_eq {suffix : String} (hl : l ≠ []) (hl' : l' ≠ [])
    (h : beside l suffix = beside l' suffix) : l = l' := by
  have hdirectory : l.dropLast = l'.dropLast := by
    rw [← dropLast_beside l suffix, h, dropLast_beside]
  have hname : l.getLastD "" = l'.getLastD "" := by
    have hlong := name_beside l suffix
    rw [h, name_beside] at hlong
    exact (String.append_left_inj suffix).1 hlong.symm
  rw [List.getLastD_eq_getLast?, List.getLastD_eq_getLast?, List.getLast?_eq_some_getLast hl,
    List.getLast?_eq_some_getLast hl'] at hname
  rw [← List.dropLast_append_getLast hl, ← List.dropLast_append_getLast hl', hdirectory]
  exact congrArg (fun name => l'.dropLast ++ [name]) hname

/-- Different ledgers have nothing beside them in common. -/
theorem not_mem_sides_of_ne (hl : l ≠ []) (hl' : l' ≠ []) (hne : l ≠ l') (h : m ∈ sides l) :
    m ∉ sides l' := by
  intro h'
  rcases mem_sides.1 h with rfl | rfl | rfl <;> rcases mem_sides.1 h' with h' | h' | h'
  · exact hne (eq_of_beside_eq hl hl' h')
  · exact journalOf_ne_logOf l l' h'
  · exact journalOf_ne_indexOf l l' h'
  · exact journalOf_ne_logOf l' l h'.symm
  · exact hne (eq_of_beside_eq hl hl' h')
  · exact logOf_ne_indexOf l l' h'
  · exact journalOf_ne_indexOf l' l h'.symm
  · exact logOf_ne_indexOf l' l h'.symm
  · exact hne (eq_of_beside_eq hl hl' h')

namespace LedgerFiles

open FileTree

variable {t : FileTree} {s : LedgerFiles}

theorem get?_putAt_of_ne (hl : m ≠ l) (hsides : m ∉ sides l) : (s.putAt t l).get? m = t.get? m := by
  rw [mem_sides, not_or, not_or] at hsides
  rw [putAt, get?_set_of_ne _ _ hsides.2.2, get?_set_of_ne _ _ hsides.2.1, get?_set_of_ne _ _ hsides.1,
    get?_set_of_ne _ _ hl]

theorem get?_putAt_indexOf (s : LedgerFiles) (t : FileTree) (l : Location) :
    (s.putAt t l).get? (indexOf l) = s.index :=
  get?_set_self _ _ (ne_root_of_beside l _)

theorem get?_putAt_logOf (s : LedgerFiles) (t : FileTree) (l : Location) :
    (s.putAt t l).get? (logOf l) = s.log := by
  rw [putAt, get?_set_of_ne _ _ (logOf_ne_indexOf l l)]
  exact get?_set_self _ _ (ne_root_of_beside l _)

theorem get?_putAt_journalOf (s : LedgerFiles) (t : FileTree) (l : Location) :
    (s.putAt t l).get? (journalOf l) = s.journal := by
  rw [putAt, get?_set_of_ne _ _ (journalOf_ne_indexOf l l), get?_set_of_ne _ _ (journalOf_ne_logOf l l)]
  exact get?_set_self _ _ (ne_root_of_beside l _)

theorem get?_putAt_self (s : LedgerFiles) (t : FileTree) (hl : l ≠ []) :
    (s.putAt t l).get? l = s.main := by
  have hside : ∀ m ∈ sides l, l ≠ m := fun m hm h => not_mem_sides_self l (h ▸ hm)
  rw [putAt, get?_set_of_ne _ _ (hside _ (mem_sides.2 (Or.inr (Or.inr rfl)))),
    get?_set_of_ne _ _ (hside _ (mem_sides.2 (Or.inr (Or.inl rfl)))),
    get?_set_of_ne _ _ (hside _ (mem_sides.2 (Or.inl rfl))), get?_set_self _ _ hl]

theorem of_putAt (s : LedgerFiles) (t : FileTree) (hl : l ≠ []) : of (s.putAt t l) l = s := by
  rw [of, get?_putAt_self s t hl, get?_putAt_journalOf, get?_putAt_logOf, get?_putAt_indexOf]

/-- What holds of every entry and what the storage makes of it. -/
theorem forall_putAt {R : Location → Option Entry → Option Entry → Prop} (hrefl : ∀ m e, R m e e)
    (hmain : R l (of t l).main s.main) (hjournal : R (journalOf l) (of t l).journal s.journal)
    (hlog : R (logOf l) (of t l).log s.log) (hindex : R (indexOf l) (of t l).index s.index)
    (m : Location) : R m (t.get? m) ((s.putAt t l).get? m) := by
  by_cases hroot : m = []
  · rw [hroot]
    exact hrefl _ _
  by_cases hl : m = l
  · rw [hl, get?_putAt_self s t (hl ▸ hroot)]
    exact hmain
  by_cases hsides : m ∈ sides l
  · rcases mem_sides.1 hsides with rfl | rfl | rfl
    · rw [get?_putAt_journalOf]
      exact hjournal
    · rw [get?_putAt_logOf]
      exact hlog
    · rw [get?_putAt_indexOf]
      exact hindex
  · rw [get?_putAt_of_ne hl hsides]
    exact hrefl _ _

end LedgerFiles
end History
end Reckoner
