import Mathlib.Data.List.Basic
import Reckoner.Proofs.LedgerAccess

/-! The history as a journal for each file. A journal only grows: an insertion adds to it, and clearing
moves a mark behind all that is in it. The number of a record is its place in the journal, so no number
is given twice. Calls on usable paths, in any order and over any number of files, answer as the journals
of their files do, each of which knows the calls on its own file alone (`calls_refine_journals`). -/

namespace Reckoner
namespace History

open FileTree

/-- All calculations that were ever inserted in a file, oldest first, and how many of them have been
cleared since. -/
structure Journal where
  entries : List (String × String)
  cleared : Nat
  cleared_le : cleared ≤ entries.length

/-- What a call adds to a journal. -/
def Call.entry? : Call → Option (String × String)
  | .insert input result => some (input, result)
  | .recent _ | .clear => none

namespace Journal

def empty : Journal := ⟨[], 0, Nat.le_refl 0⟩

/-- Entries as records, numbered from a first number on. -/
def numbered (first : Nat) : List (String × String) → List Record
  | [] => []
  | (input, result) :: rest => ⟨first, input, result⟩ :: numbered (first + 1) rest

/-- The records that are not cleared, newest first. -/
def records (j : Journal) : List Record :=
  ((numbered 1 j.entries).drop j.cleared).reverse

def after (j : Journal) : Call → Journal
  | .insert input result =>
    ⟨j.entries ++ [(input, result)], j.cleared,
      by rw [List.length_append]; exact Nat.le_add_right_of_le j.cleared_le⟩
  | .recent _ => j
  | .clear => ⟨j.entries, j.entries.length, Nat.le_refl _⟩

def afterAll (j : Journal) (calls : List Call) : Journal :=
  calls.foldl after j

/-- The answer that a journal gives to a call. -/
def answer (j : Journal) : Call → Except HistoryFault Answer
  | .insert input result => .ok (.inserted ⟨1 + j.entries.length, input, result⟩)
  | .recent limit =>
    if limit < 1 then .error (.limitTooSmall limit)
    else if maxLimit < limit then .error .limitTooLarge
    else .ok (.listed (j.records.take limit.toNat))
  | .clear => .ok (.cleared j.records.length)

/-- The ledger that stands for a journal. -/
def ledger (j : Journal) : Ledger :=
  ⟨j.records, j.entries.length⟩

theorem length_numbered (first : Nat) (entries : List (String × String)) :
    (numbered first entries).length = entries.length := by
  induction entries generalizing first with
  | nil => rfl
  | cons entry entries ih => rw [numbered, List.length_cons, ih, List.length_cons]

theorem numbered_append (first : Nat) (xs ys : List (String × String)) :
    numbered first (xs ++ ys) = numbered first xs ++ numbered (first + xs.length) ys := by
  induction xs generalizing first with
  | nil => rfl
  | cons entry xs ih =>
      have hplace : first + 1 + xs.length = first + (entry :: xs).length := by
        rw [List.length_cons]
        omega
      rw [List.cons_append, numbered, ih, hplace, numbered, List.cons_append]

theorem first_le_of_mem_numbered {first : Nat} {entries : List (String × String)} {r : Record}
    (h : r ∈ numbered first entries) : first ≤ r.id := by
  induction entries generalizing first with
  | nil => cases h
  | cons entry entries ih =>
      rcases List.mem_cons.1 h with rfl | h
      · exact Nat.le_refl _
      · exact Nat.le_of_succ_le (ih h)

theorem numbered_ascending (first : Nat) (entries : List (String × String)) :
    (numbered first entries).Pairwise fun older newer => older.id < newer.id := by
  induction entries generalizing first with
  | nil => exact .nil
  | cons entry entries ih => exact .cons (fun r hr => first_le_of_mem_numbered hr) (ih (first + 1))

/-- The numbers of the records fall from the newest to the oldest. -/
theorem records_descending (j : Journal) :
    j.records.Pairwise fun newer older => older.id < newer.id := by
  rw [records, List.pairwise_reverse]
  exact (numbered_ascending 1 j.entries).drop

theorem ledger_insert (j : Journal) (input result : String) :
    (j.after (.insert input result)).ledger = j.ledger.insert input result := by
  have hcleared : j.cleared ≤ (numbered 1 j.entries).length := by
    rw [length_numbered]
    exact j.cleared_le
  simp only [ledger, records, after, Ledger.insert, Ledger.next, numbered_append, numbered,
    List.drop_append_of_le_length hcleared, List.reverse_append, List.reverse_singleton,
    List.singleton_append, List.length_append, List.length_singleton, Nat.add_comm 1]

theorem ledger_clear (j : Journal) : (j.after .clear).ledger = j.ledger.clear := by
  have hnone : (numbered 1 j.entries).drop j.entries.length = [] :=
    List.drop_eq_nil_of_le (Nat.le_of_eq (length_numbered 1 j.entries))
  simp only [ledger, records, after, Ledger.clear, hnone, List.reverse_nil]

/-- Nothing is taken out of a journal: after calls it holds what it held before, and then what they
inserted. -/
theorem entries_afterAll (j : Journal) (calls : List Call) :
    (j.afterAll calls).entries = j.entries ++ calls.filterMap Call.entry? := by
  induction calls generalizing j with
  | nil => exact (List.append_nil _).symm
  | cons c calls ih =>
      rw [afterAll, List.foldl_cons]
      refine (ih (j.after c)).trans ?_
      cases c with
      | insert input result =>
          rw [List.filterMap_cons, after, Call.entry?, List.append_assoc, List.singleton_append]
      | recent limit => rfl
      | clear => rfl

end Journal

/-- A call on a usable path answers as the journal of its file does, and leaves the ledger of the
journal after the call. -/
theorem Leads.perform_journal {w : World} {p : Path} {l : Location} {j : Journal}
    (h : Leads w.files p l true) (hj : ledgerAt w.files l = j.ledger) (c : Call) :
    (History.perform w p c).2 = j.answer c ∧
      Replaces w.files p (j.after c).ledger (History.perform w p c).1.files := by
  cases c with
  | insert input result =>
      obtain ⟨hanswer, hreplaces⟩ := h.insert_ok input result
      refine ⟨?_, ?_⟩
      · change (insert w p input result).2.map Answer.inserted = _
        rw [hanswer, hj, Journal.answer, Nat.add_comm]
        rfl
      · rw [Journal.ledger_insert, ← hj]
        exact hreplaces
  | recent limit =>
      obtain ⟨hsame, -⟩ := recent_cases w p limit
      refine ⟨?_, ?_⟩
      · change (recent w p limit).2.map Answer.listed = _
        by_cases hsmall : limit < 1
        · rw [Journal.answer, if_pos hsmall, recent, if_pos hsmall]
          rfl
        · rw [h.recent_ok (by omega), hj, Journal.answer, if_neg hsmall]
          split_ifs <;> rfl
      · rw [SameLedgers, h.ledgerOf_eq, hj] at hsame
        exact hsame
  | clear =>
      obtain ⟨hanswer, hreplaces⟩ := h.clear_ok
      refine ⟨?_, ?_⟩
      · change (clear w p).2.map Answer.cleared = _
        rw [hanswer, hj]
        rfl
      · rw [Journal.ledger_clear, ← hj]
        exact hreplaces

/-- What calls leave, one after another, each on its own path. -/
def performAll (w : World) (calls : List (Path × Call)) : World :=
  calls.foldl (fun w call => (perform w call.1 call.2).1) w

/-- The calls on one of several files, in order. -/
def callsOn (file : Path → Location) (l : Location) (calls : List (Path × Call)) : List Call :=
  (calls.filter fun call => file call.1 = l).map Prod.snd

/-- Usable paths and the files that they lead to. No file, and nothing that the storage knows beside it, is on
the passage of a path to another, so none lies below another; no file is taken for one beside another; and
each holds the ledger of its journal. A file that is missing has the empty journal. -/
structure Represents (paths : List Path) (file : Path → Location) (journal : Location → Journal)
    (t : FileTree) : Prop where
  leads : ∀ p ∈ paths, Leads t p (file p) true
  apart : ∀ p ∈ paths, ∀ q ∈ paths, file p ≠ file q → Apart t q (file p) (file q)
  ledger : ∀ p ∈ paths, ledgerAt t (file p) = (journal (file p)).ledger

variable {paths : List Path} {file : Path → Location} {journal : Location → Journal} {w : World}

theorem Represents.perform (h : Represents paths file journal w.files) {p : Path} (hp : p ∈ paths)
    (c : Call) :
    Represents paths file
      (fun l => if l = file p then (journal l).after c else journal l)
      (History.perform w p c).1.files := by
  have hleads := h.leads p hp
  have hstart := (perform_grows w p c).start
  have hreplaces := (hleads.perform_journal (h.ledger p hp) c).2
  refine
    { leads := fun q hq => ?_
      apart := fun q hq r hr hne => ?_
      ledger := fun q hq => ?_ }
  · by_cases hsame : file q = file p
    · have hq' := h.leads q hq
      rw [hsame] at hq' ⊢
      exact hq'.perform_same hleads c
    · exact (h.leads q hq).perform_other hleads hsame (h.apart q hq p hp hsame)
        (h.apart p hp q hq (Ne.symm hsame)) c
  · obtain ⟨hpassage, hsides, hbeside⟩ := h.apart q hq r hr hne
    rw [← passage_eq_of_start hstart] at hpassage
    simp only [← passage_eq_of_start hstart r] at hsides
    exact ⟨hpassage, hsides, hbeside⟩
  · by_cases hsame : file q = file p
    · rw [hsame, if_pos rfl]
      exact hreplaces.own _ hleads.database?_eq
    · rw [if_neg hsame, ← h.ledger q hq]
      refine (hreplaces.other (file q) fun hfile => hsame ?_).resolve_right fun hlost => ?_
      · exact Option.some.inj (hfile.symm.trans hleads.database?_eq)
      · rw [sidesOf_of_database hleads.database?_eq] at hlost
        exact (h.apart q hq p hp hsame).beside hlost.1

theorem Represents.performAll (h : Represents paths file journal w.files)
    (calls : List (Path × Call)) (hcalls : ∀ call ∈ calls, call.1 ∈ paths) :
    Represents paths file (fun l => (journal l).afterAll (callsOn file l calls))
      (History.performAll w calls).files := by
  induction calls generalizing w journal with
  | nil => exact h
  | cons call calls ih =>
      rw [List.forall_mem_cons] at hcalls
      have hrest := ih (h.perform hcalls.1 call.2) hcalls.2
      have hjournals : (fun l => (journal l).afterAll (callsOn file l (call :: calls))) =
          fun l => (if l = file call.1 then (journal l).after call.2 else journal l).afterAll
            (callsOn file l calls) := by
        funext l
        by_cases hl : file call.1 = l
        · rw [callsOn, List.filter_cons_of_pos (by simp [hl]), if_pos hl.symm]
          rfl
        · rw [callsOn, List.filter_cons_of_neg (by simp [hl]), if_neg (Ne.symm hl)]
          rfl
      rw [hjournals]
      exact hrest

/-- Calls on usable paths refine journals, one for each file. After any calls, the next call on a path is
answered by the journal of its file after the calls on that file alone, which the file holds as well:
an insertion under the number that follows all insertions ever made there, a list of the newest records
that are not cleared, their numbers falling, and a count of what is cleared. A call that fails, on
whatever path, changes the records and the counter of no file, but for files beside its own. -/
theorem calls_refine_journals (h : Represents paths file journal w.files)
    (calls : List (Path × Call)) (hcalls : ∀ call ∈ calls, call.1 ∈ paths) :
    (∀ p ∈ paths, ∀ c : Call,
      let past := callsOn file (file p) calls
      let j := (journal (file p)).afterAll past
      (perform (performAll w calls) p c).2 = j.answer c ∧
        ledgerAt (performAll w calls).files (file p) = j.ledger ∧
        j.entries = (journal (file p)).entries ++ past.filterMap Call.entry? ∧
        j.records.Pairwise fun newer older => older.id < newer.id) ∧
      ∀ (v : World) (p : Path) (c : Call) (fault : HistoryFault),
        (perform v p c).2 = .error fault → SameLedgers v.files p (perform v p c).1.files := by
  refine ⟨fun p hp c => ?_, fun v p c fault hfault => sameLedgers_of_error hfault⟩
  intro past j
  have hafter := h.performAll calls hcalls
  have hledger := hafter.ledger p hp
  exact ⟨((hafter.leads p hp).perform_journal hledger c).1, hledger,
    (journal (file p)).entries_afterAll past, j.records_descending⟩

theorem calls_refine_journals_of_two_files :
    let a := Path.ofString "a.db"
    let b := Path.ofString "sub/b.db"
    let file : Path → Location := fun p => if p = a then ["w", "a.db"] else ["w", "sub", "b.db"]
    let old : Journal := ⟨[("1+1", "2"), ("2*3", "6")], 1, by decide⟩
    let journal : Location → Journal := fun l => if l = ["w", "a.db"] then old else .empty
    let w : World :=
      ⟨⟨[(["w"], .directory), (["w", "a.db"], .file (.ledger old.ledger))], ["w"]⟩, []⟩
    let calls : List (Path × Call) :=
      [(b, .insert "7" "7"), (a, .clear), (a, .insert "8" "8"), (b, .recent 0), (b, .insert "9" "9")]
    Represents [a, b] file journal w.files ∧ (∀ call ∈ calls, call.1 ∈ [a, b]) ∧
      (perform (performAll w calls) a (.recent 5)).2 = .ok (.listed [⟨3, "8", "8"⟩]) ∧
      (perform (performAll w calls) b (.recent 5)).2 =
        .ok (.listed [⟨2, "9", "9"⟩, ⟨1, "7", "7"⟩]) := by
  intro a b file old journal w calls
  have hrepresents : Represents [a, b] file journal w.files :=
    { leads := List.forall_mem_cons.2
        ⟨⟨⟨⟨some ["w", "a.db"], old.ledger, true, false⟩, by decide +kernel⟩, by decide +kernel⟩,
          List.forall_mem_singleton.2
            ⟨⟨⟨some ["w", "sub", "b.db"], .empty, true, false⟩, by decide +kernel⟩, by decide +kernel⟩⟩
      apart := by decide +kernel
      ledger := by decide +kernel }
  have hcalls : ∀ call ∈ calls, call.1 ∈ [a, b] := by decide +kernel
  have hrefines := (calls_refine_journals hrepresents calls hcalls).1
  exact ⟨hrepresents, hcalls, (hrefines a List.mem_cons_self _).1.trans (by decide +kernel),
    (hrefines b (List.mem_cons_of_mem _ List.mem_cons_self) _).1.trans (by decide +kernel)⟩

/-- A ledger named like the journal of another is lost when the other is opened, and its numbers are given
again. -/
theorem number_given_again_beside :
    let journal := Path.ofString "a.db-journal"
    let main := Path.ofString "a.db"
    let w : World := ⟨⟨[(["w"], .directory)], ["w"]⟩, []⟩
    let calls : List (Path × Call) := [(journal, .insert "1" "1"), (main, .insert "2" "2")]
    database? w.files journal = some ["w", "a.db-journal"] ∧ database? w.files main = some ["w", "a.db"] ∧
      (perform w journal (.insert "1" "1")).2 = .ok (.inserted ⟨1, "1", "1"⟩) ∧
      (perform (performAll w calls) journal (.insert "3" "3")).2 = .ok (.inserted ⟨1, "3", "3"⟩) := by
  decide +kernel

end History
end Reckoner
