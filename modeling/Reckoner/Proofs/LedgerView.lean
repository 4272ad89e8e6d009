import Mathlib.Data.List.Basic
import Reckoner.History.Call
import Reckoner.Proofs.HistoryFrame

/-! Files as ledgers. Seen through the ledger that each location holds, opening a history changes nothing,
whether it succeeds or not, but for ledgers in files beside its own, which the storage may take away; and
so does a call that fails. A call that succeeds answers from the ledger where its path leads and changes
that one; a path that names memory leads nowhere, and its call acts on an empty ledger of its own
(`insert_cases`, `recent_cases`, `clear_cases`). -/

namespace Reckoner
namespace History

open FileTree

def ledgerAt (t : FileTree) (l : Location) : Ledger :=
  ledgerIn (t.get? l)

/-- The ledger that calls on a path act on. -/
def ledgerOf (t : FileTree) (p : Path) : Ledger :=
  (database? t p).elim .empty (ledgerAt t)

/-- Every ledger is as it was, but for those that were lost at some locations. -/
def KeepsLedgers (lost : List Location) (t u : FileTree) : Prop :=
  ∀ m, ledgerAt u m = ledgerAt t m ∨ (m ∈ lost ∧ ledgerAt u m = .empty)

/-- A tree holds another ledger where a path leads, and the same as before elsewhere, but for ledgers that
were lost beside it. -/
structure Replaces (t : FileTree) (p : Path) (ledger : Ledger) (u : FileTree) : Prop where
  own : ∀ l, database? t p = some l → ledgerAt u l = ledger
  other : ∀ m, database? t p ≠ some m →
    ledgerAt u m = ledgerAt t m ∨ (m ∈ sidesOf t p ∧ ledgerAt u m = .empty)

/-- A tree holds the same ledger where a path leads, and elsewhere too, but for ledgers that were lost beside
it. -/
def SameLedgers (t : FileTree) (p : Path) (u : FileTree) : Prop :=
  Replaces t p (ledgerOf t p) u

variable {t u v : FileTree} {p : Path} {l : Location} {lost : List Location}

theorem ledgerOf_of_database (h : database? t p = some l) : ledgerOf t p = ledgerAt t l := by
  rw [ledgerOf, h]
  rfl

theorem not_mem_sidesOf (h : database? t p = some l) : l ∉ sidesOf t p := by
  rw [sidesOf_of_database h]
  exact not_mem_sides_self l

theorem ledgerAt_put (t : FileTree) (e : Entry) (hl : l ≠ []) (m : Location) :
    ledgerAt (t.put l e) m = if m = l then ledgerIn (some e) else ledgerAt t m := by
  by_cases hm : m = l
  · rw [if_pos hm, hm, ledgerAt, get?_put_self t e hl]
  · rw [if_neg hm, ledgerAt, get?_put_of_ne t e hm, ledgerAt]

namespace KeepsLedgers

theorem refl (lost : List Location) (t : FileTree) : KeepsLedgers lost t t :=
  fun _ => Or.inl rfl

theorem trans (h : KeepsLedgers lost t u) (k : KeepsLedgers lost u v) : KeepsLedgers lost t v := by
  intro m
  rcases k m with hsame | hlost
  · rw [hsame]
    exact h m
  · exact Or.inr hlost

theorem put_directory (h : t.get? l = none) : KeepsLedgers lost t (t.put l .directory) := by
  have hroot : l ≠ [] := ne_root_of_free (by rw [h]; exact fun h => by cases h)
  intro m
  rw [ledgerAt_put t _ hroot]
  split_ifs with hm
  · rw [hm, ledgerAt, h]
    exact Or.inl rfl
  · exact Or.inl rfl

theorem makeFrom {names : List String} (t : FileTree) (p : Path) (made : Bool) (l : Location)
    (passed : List String) : KeepsLedgers lost t (t.makeFrom p made l passed names).1 := by
  induction names generalizing t made l passed with
  | nil => exact refl lost t
  | cons name names ih =>
      simp only [FileTree.makeFrom]
      by_cases hlong : Path.isLongName name = true
      · rw [if_pos hlong]
        exact refl lost t
      · rw [if_neg hlong]
        cases hnext : t.get? (step l name) with
        | none => exact (put_directory hnext).trans (ih _ true (step l name) (passed ++ [name]))
        | some e =>
            cases e with
            | directory => exact ih t made (step l name) (passed ++ [name])
            | file content => exact refl lost t

theorem makeDirectories (t : FileTree) (p : Path) : KeepsLedgers lost t (t.makeDirectories p).1 := by
  rw [FileTree.makeDirectories]
  split_ifs with hlong
  · exact refl lost t
  · exact makeFrom t p false _ []

theorem openAt (t : FileTree) (l : Location) (access : Access) :
    KeepsLedgers (sides l) t (History.openAt t l access).1 := by
  have htended := LedgerFiles.openAs_tended (LedgerFiles.of t l) l access
  have hside : ∀ {m : Location} {e e' : Option Entry}, m ∈ sides l → Yields e e' →
      ledgerIn e' = ledgerIn e ∨ (m ∈ sides l ∧ ledgerIn e' = .empty) :=
    fun hm h => h.ledgerIn_cases.imp_right fun hempty => ⟨hm, hempty⟩
  exact LedgerFiles.forall_putAt
    (R := fun m e e' => ledgerIn e' = ledgerIn e ∨ (m ∈ sides l ∧ ledgerIn e' = .empty))
    (fun _ _ => Or.inl rfl) (Or.inl htended.ledger) (hside (mem_sides.2 (Or.inl rfl)) htended.journal)
    (hside (mem_sides.2 (Or.inr (Or.inl rfl))) htended.log)
    (hside (mem_sides.2 (Or.inr (Or.inr rfl))) htended.index)

theorem openLedger (t : FileTree) (p : Path) :
    KeepsLedgers (sidesOf t p) t (History.openLedger t p).1 := by
  have hmake : KeepsLedgers (sidesOf t p) t (t.makeDirectories p.parent).1 := makeDirectories t p.parent
  have hstart := (Extends.makeDirectories t p.parent (parent_way_subset_footprint t p)).start
  rcases openLedger_cases t p with ⟨fault, -, -, h | h⟩ | ⟨a, ha, h⟩
  · rw [h]
    exact refl _ t
  · rw [h]
    exact hmake
  · rw [h]
    refine hmake.trans ?_
    rw [openAddress]
    cases hq : a.file? with
    | none => exact refl _ _
    | some q =>
        cases hl : locate? (t.makeDirectories p.parent).1 q with
        | none =>
            simp only [hl]
            exact refl _ _
        | some l =>
            simp only [hl]
            have hl' := eq_destination_of_locate? hl
            rw [hstart q.anchor] at hl'
            rw [sidesOf_of_database (hl' ▸ database?_of_file ha hq)]
            exact openAt _ l a.access

theorem same (h : KeepsLedgers (sidesOf t p) t u) : SameLedgers t p u where
  own l hl := by
    rw [ledgerOf_of_database hl]
    exact (h l).resolve_right fun hlost => not_mem_sidesOf hl hlost.1
  other m _ := h m

end KeepsLedgers

theorem SameLedgers.refl (t : FileTree) (p : Path) : SameLedgers t p t :=
  (KeepsLedgers.refl (sidesOf t p) t).same

theorem SameLedgers.ledgerAt_eq (h : SameLedgers t p u) (hl : database? t p = some l) :
    ledgerAt u l = ledgerAt t l :=
  (h.own l hl).trans (ledgerOf_of_database hl)

theorem SameLedgers.openLedger (t : FileTree) (p : Path) :
    SameLedgers t p (History.openLedger t p).1 :=
  (KeepsLedgers.openLedger t p).same

/-- Where a ledger was opened, which one it is, and that its file holds it now. -/
theorem openLedger_ok {opened : Opened} (h : (openLedger t p).2 = .ok opened) :
    opened.location = database? t p ∧ opened.ledger = ledgerOf t p ∧
      ∀ l, database? t p = some l →
        (openLedger t p).1.get? l = some (.file (.ledger (ledgerAt t l))) := by
  have hmake := Extends.makeDirectories t p.parent (parent_way_subset_footprint t p)
  rcases openLedger_cases t p with ⟨fault, -, hfault, -⟩ | ⟨a, ha, heq⟩
  · rw [hfault] at h
    cases h
  rw [heq] at h ⊢
  rcases opened_of_openAddress h with ⟨hq, rfl, -⟩ | ⟨q, l, hq, hlocate, hopen, hfiles⟩
  · rw [ledgerOf, database?_of_memory ha hq]
    exact ⟨rfl, rfl, fun l hl => by cases hl⟩
  · obtain ⟨hlocation, hledger, -, hentry, -⟩ := opened_of_openAt hopen
    have hl := eq_destination_of_locate? hlocate
    rw [hmake.start q.anchor] at hl
    have hdatabase : database? t p = some l := hl ▸ database?_of_file ha hq
    have hkept : KeepsLedgers [] t (t.makeDirectories p.parent).1 := KeepsLedgers.makeDirectories t p.parent
    have hsame : ledgerIn ((t.makeDirectories p.parent).1.get? l) = ledgerAt t l :=
      (hkept l).resolve_right fun hlost => by cases hlost.1
    rw [hsame] at hledger hentry
    rw [ledgerOf_of_database hdatabase, hdatabase]
    refine ⟨hlocation, hledger, fun m hm => ?_⟩
    cases hm
    rw [hfiles]
    exact hentry

theorem replaces_save {opened : Opened} (h : (openLedger t p).2 = .ok opened) (ledger : Ledger) :
    Replaces t p ledger (save (openLedger t p).1 opened ledger) := by
  have hsame := SameLedgers.openLedger t p
  obtain ⟨hlocation, -, hentry⟩ := openLedger_ok h
  cases hl : database? t p with
  | none =>
      rw [save, hlocation, hl]
      exact ⟨fun l hl' => (by cases hl.symm.trans hl'), hsame.other⟩
  | some l =>
      have hroot : l ≠ [] := ne_root_of_free (ne_directory_of_file (hentry l hl))
      rw [save, hlocation, hl]
      refine ⟨fun m hm => ?_, fun m hm => ?_⟩
      · cases hl.symm.trans hm
        rw [ledgerAt, LedgerFiles.get?_putAt_self _ _ hroot]
        rfl
      · have hne : m ≠ l := fun heq => hm (heq ▸ hl)
        rw [sidesOf_of_database hl]
        have hkept := hsame.other m hm
        rw [sidesOf_of_database hl] at hkept
        have hput := LedgerFiles.forall_putAt (t := (openLedger t p).1)
          (s := (LedgerFiles.of (openLedger t p).1 l).save opened ledger)
          (R := fun m e e' => m = l ∨ e' = e ∨ (m ∈ sides l ∧ e' = none))
          (fun _ _ => Or.inr (Or.inl rfl)) (Or.inl rfl)
          (Or.inr ((LedgerFiles.loses_journal_save _ opened ledger).imp_right fun hnone =>
            ⟨mem_sides.2 (Or.inl rfl), hnone⟩))
          (Or.inr (Or.inl rfl)) (Or.inr (Or.inl rfl)) m
        rcases hput with heq | heq | ⟨hside, hnone⟩
        · exact absurd heq hne
        · rw [ledgerAt, heq]
          exact hkept
        · rw [ledgerAt, hnone]
          exact Or.inr ⟨hside, rfl⟩

theorem insert_cases (w : World) (p : Path) (input result : String) :
    (∃ fault, (openWritable w.files p).2 = .error fault ∧
        (insert w p input result).2 = .error fault ∧
        SameLedgers w.files p (insert w p input result).1.files) ∨
      ((insert w p input result).2 = .ok ((ledgerOf w.files p).next input result) ∧
        Replaces w.files p ((ledgerOf w.files p).insert input result)
          (insert w p input result).1.files) := by
  have hsame := SameLedgers.openLedger w.files p
  rw [insert]
  rcases openWritable_cases w.files p with ⟨fault, -, heq⟩ | ⟨opened, hopened, heq⟩
  · rw [heq]
    exact Or.inl ⟨fault, rfl, rfl, hsame⟩
  · rw [heq, ← (openLedger_ok hopened).2.1]
    exact Or.inr ⟨rfl, replaces_save hopened _⟩

theorem clear_cases (w : World) (p : Path) :
    (∃ fault, (openWritable w.files p).2 = .error fault ∧ (clear w p).2 = .error fault ∧
        SameLedgers w.files p (clear w p).1.files) ∨
      ((clear w p).2 = .ok (ledgerOf w.files p).size ∧
        Replaces w.files p (ledgerOf w.files p).clear (clear w p).1.files) := by
  have hsame := SameLedgers.openLedger w.files p
  rw [clear]
  rcases openWritable_cases w.files p with ⟨fault, -, heq⟩ | ⟨opened, hopened, heq⟩
  · rw [heq]
    exact Or.inl ⟨fault, rfl, rfl, hsame⟩
  · rw [heq, ← (openLedger_ok hopened).2.1]
    exact Or.inr ⟨rfl, replaces_save hopened _⟩

/-- A list of the newest records changes no ledger, but for those lost. A limit that is too small is
refused before the file is touched, one that is too large after the ledger is opened. -/
theorem recent_cases (w : World) (p : Path) (limit : Int) :
    SameLedgers w.files p (recent w p limit).1.files ∧
      ((limit < 1 ∧ (recent w p limit).2 = .error (.limitTooSmall limit)) ∨
        (1 ≤ limit ∧ ∃ fault, (openLedger w.files p).2 = .error fault ∧
          (recent w p limit).2 = .error fault) ∨
        (1 ≤ limit ∧ ∃ opened, (openLedger w.files p).2 = .ok opened ∧
          (recent w p limit).2 =
            if maxLimit < limit then .error .limitTooLarge
            else .ok ((ledgerOf w.files p).recent limit.toNat))) := by
  have hsame := SameLedgers.openLedger w.files p
  rw [recent]
  by_cases hsmall : limit < 1
  · rw [if_pos hsmall]
    exact ⟨SameLedgers.refl _ p, Or.inl ⟨hsmall, rfl⟩⟩
  have hone : 1 ≤ limit := by omega
  rw [if_neg hsmall]
  rcases hopen : openLedger w.files p with ⟨files, fault | opened⟩
  · rw [hopen] at hsame
    exact ⟨hsame, Or.inr (Or.inl ⟨hone, fault, rfl, rfl⟩)⟩
  · have hledger := (openLedger_ok (t := w.files) (p := p) (by rw [hopen])).2.1
    rw [hopen] at hsame
    refine ⟨?_, Or.inr (Or.inr ⟨hone, opened, rfl, ?_⟩)⟩
    · simp only
      split_ifs <;> exact hsame
    · rw [← hledger]
      split_ifs <;> rfl

/-- A call that fails changes no ledger, though some beside its own may be lost. -/
theorem sameLedgers_of_error {w : World} {c : Call} {fault : HistoryFault}
    (h : (perform w p c).2 = .error fault) : SameLedgers w.files p (perform w p c).1.files := by
  cases c with
  | insert input result =>
      rcases insert_cases w p input result with ⟨fault', -, -, hsame⟩ | ⟨hok, -⟩
      · exact hsame
      · have hanswer : (perform w p (.insert input result)).2 =
            ((insert w p input result).2.map .inserted) := rfl
        rw [hanswer, hok] at h
        cases h
  | recent limit => exact (recent_cases w p limit).1
  | clear =>
      rcases clear_cases w p with ⟨fault', -, -, hsame⟩ | ⟨hok, -⟩
      · exact hsame
      · have hanswer : (perform w p .clear).2 = ((clear w p).2.map .cleared) := rfl
        rw [hanswer, hok] at h
        cases h

end History
end Reckoner
