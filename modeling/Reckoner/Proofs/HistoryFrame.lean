import Mathlib.Data.List.Basic
import Reckoner.History.Store
import Reckoner.Proofs.LedgerFiles
import Reckoner.Proofs.TreeFrame

/-! What a call on the history reads and changes. The path of a history leads to the directory it is
in, and its address to the file that holds the ledger; the locations on both ways are the footprint of
the path, and what the storage knows beside the file makes it the reach. A call gives the same answer in
trees that agree on the reach, and leaves whatever is out of it as it was. -/

namespace Reckoner
namespace History

open FileTree

/-- The locations that the path of a history leads through. -/
def footprint (t : FileTree) (p : Path) : List Location :=
  way (t.start p.anchor) p.parent.names ++
    match (Address.ofPath p).toOption.bind Address.file? with
    | none => []
    | some q =>
      (destination (t.start q.anchor) q.names).dropLast :: way (t.start q.anchor) q.names

/-- The location that the path of a history leads to, none when it names memory. It hangs on the
current directory alone, whatever the tree holds. -/
def database? (t : FileTree) (p : Path) : Option Location :=
  ((Address.ofPath p).toOption.bind Address.file?).map fun q =>
    destination (t.start q.anchor) q.names

/-- The locations beside the file of a path that the storage knows. -/
def sidesOf (t : FileTree) (p : Path) : List Location :=
  (database? t p).elim [] sides

/-- All locations that calls on the history of a path look at. -/
def reach (t : FileTree) (p : Path) : List Location :=
  footprint t p ++ sidesOf t p

/-- What is stored where the path of a history leads, if it leads to a file. -/
def stored? (t : FileTree) (p : Path) : Option Entry :=
  match ((Address.ofPath p).toOption.bind Address.file?).bind (locate? t) with
  | none => none
  | some l => t.get? l

/-- A path on which nothing but the storage itself can fail: it holds no null character, and never lacks
more directories than can be made. -/
def IsOrdinary (p : Path) : Prop :=
  p.hasNull = false ∧ p.parent.names.length ≤ maxMissing

instance (p : Path) : Decidable (IsOrdinary p) :=
  inferInstanceAs (Decidable (_ ∧ _))

variable {P : Location → Prop} {t u : FileTree} {p : Path} {s : List Location}

theorem footprint_eq_of_start (h : ∀ a, u.start a = t.start a) (p : Path) :
    footprint u p = footprint t p := by
  simp only [footprint, h]

theorem database?_eq_of_start (h : ∀ a, u.start a = t.start a) (p : Path) :
    database? u p = database? t p := by
  simp only [database?, h]

theorem sidesOf_eq_of_start (h : ∀ a, u.start a = t.start a) (p : Path) :
    sidesOf u p = sidesOf t p := by
  rw [sidesOf, sidesOf, database?_eq_of_start h]

theorem reach_eq_of_start (h : ∀ a, u.start a = t.start a) (p : Path) : reach u p = reach t p := by
  rw [reach, reach, footprint_eq_of_start h, sidesOf_eq_of_start h]

theorem footprint_subset_reach (t : FileTree) (p : Path) : ∀ m ∈ footprint t p, m ∈ reach t p :=
  fun _ hm => List.mem_append_left _ hm

theorem way_subset_footprint {q : Path}
    (hq : (Address.ofPath p).toOption.bind Address.file? = some q) :
    ∀ m ∈ (destination (t.start q.anchor) q.names).dropLast :: way (t.start q.anchor) q.names,
      m ∈ footprint t p := by
  intro m hm
  rw [footprint, hq]
  exact List.mem_append_right _ hm

theorem file?_eq_of_ofPath {a : Address} (h : Address.ofPath p = .ok a) :
    (Address.ofPath p).toOption.bind Address.file? = a.file? := by
  rw [h]
  rfl

theorem database?_of_file {a : Address} {q : Path} (ha : Address.ofPath p = .ok a)
    (hq : a.file? = some q) : database? t p = some (destination (t.start q.anchor) q.names) := by
  rw [database?, file?_eq_of_ofPath ha, hq]
  rfl

theorem database?_of_memory {a : Address} (ha : Address.ofPath p = .ok a) (hq : a.file? = none) :
    database? t p = none := by
  rw [database?, file?_eq_of_ofPath ha, hq]
  rfl

theorem sidesOf_of_database {l : Location} (h : database? t p = some l) : sidesOf t p = sides l := by
  rw [sidesOf, h]
  rfl

theorem not_mem_reach {l : Location} (hfoot : l ∉ footprint t p) (hsides : ∀ l', l ∉ sides l') :
    l ∉ reach t p := by
  rw [reach, List.mem_append, not_or]
  refine ⟨hfoot, ?_⟩
  rw [sidesOf]
  cases database? t p with
  | none => exact List.not_mem_nil
  | some l' => exact hsides l'

/-- What the address of a path leads through, and what is beside the file there. -/
theorem surroundings_subset_reach {a : Address} {q : Path} (ha : Address.ofPath p = .ok a)
    (hq : a.file? = some q) :
    (∀ m ∈ (destination (t.start q.anchor) q.names).dropLast :: way (t.start q.anchor) q.names,
      m ∈ reach t p) ∧ ∀ m ∈ sides (destination (t.start q.anchor) q.names), m ∈ reach t p := by
  refine ⟨fun m hm => footprint_subset_reach t p m ?_, fun m hm => List.mem_append_right _ ?_⟩
  · exact way_subset_footprint ((file?_eq_of_ofPath ha).trans hq) m hm
  · rw [sidesOf_of_database (database?_of_file ha hq)]
    exact hm

/-- A location is off the footprint when neither the directory of the path nor the file of its address is
there or below. -/
theorem not_mem_footprint {q : Path} {l : Location}
    (hq : (Address.ofPath p).toOption.bind Address.file? = some q)
    (hdirectory : ".." ∉ p.parent.names) (hfile : ".." ∉ q.names)
    (hoffDirectory : ¬l <+: destination (t.start p.anchor) p.parent.names)
    (hoffFile : ¬l <+: destination (t.start q.anchor) q.names) : l ∉ footprint t p := by
  rw [footprint, hq]
  intro hmem
  rcases List.mem_append.1 hmem with hmem | hmem
  · exact hoffDirectory (prefix_of_mem_way hdirectory hmem)
  · rcases List.mem_cons.1 hmem with rfl | hmem
    · exact hoffFile (List.dropLast_prefix _)
    · exact hoffFile (prefix_of_mem_way hfile hmem)

theorem eq_destination_of_resolve? {names : List String} {l l' : Location}
    (h : resolve? t l names = some l') : l' = destination l names := by
  induction names generalizing l with
  | nil => exact (Option.some.inj h).symm
  | cons name names ih =>
      rw [resolve?] at h
      by_cases hparent : name = ".."
      · rw [if_pos hparent] at h
        rw [ih h, destination, destination, List.foldl_cons, step, if_pos hparent]
      · rw [if_neg hparent] at h
        rw [destination, List.foldl_cons, step, if_neg hparent]
        by_cases hlong : Path.isLongName name = true
        · rw [if_pos hlong] at h
          cases h
        · rw [if_neg hlong] at h
          split at h
          · cases h
          · exact ih h

theorem eq_destination_of_locate? {l : Location} (h : locate? t p = some l) :
    l = destination (t.start p.anchor) p.names := by
  rw [locate?] at h
  split at h
  · cases h
  · next l' hresolve =>
    split at h
    · cases h
    · cases h
      exact eq_destination_of_resolve? hresolve

theorem resolve?_congr {names : List String} {l : Location} (h : AgreeOn P t u)
    (hway : ∀ m ∈ way l names, P m) : resolve? t l names = resolve? u l names := by
  induction names generalizing l with
  | nil => rfl
  | cons name names ih =>
      have hrest : ∀ m ∈ way (step l name) names, P m :=
        fun m hm => hway m (List.mem_cons_of_mem _ hm)
      rw [resolve?, resolve?, h.entry l (hway l List.mem_cons_self)]
      by_cases hparent : name = ".."
      · rw [step, if_pos hparent] at hrest
        rw [if_pos hparent, if_pos hparent, ih hrest]
      · rw [step, if_neg hparent] at hrest
        rw [if_neg hparent, if_neg hparent, ih hrest]

theorem locate?_congr (h : AgreeOn P t u)
    (hway : ∀ m ∈ (destination (t.start p.anchor) p.names).dropLast ::
      way (t.start p.anchor) p.names, P m) : locate? t p = locate? u p := by
  have hresolve : resolve? t (t.start p.anchor) p.names = resolve? u (u.start p.anchor) p.names := by
    rw [← h.start p.anchor]
    exact resolve?_congr h fun m hm => hway m (List.mem_cons_of_mem _ hm)
  rw [locate?, locate?, ← hresolve]
  cases hl : resolve? t (t.start p.anchor) p.names with
  | none => rfl
  | some l =>
      have hl' := eq_destination_of_resolve? hl
      have hparent : t.get? l.dropLast = u.get? l.dropLast := by
        rw [hl']
        exact h.entry _ (hway _ List.mem_cons_self)
      simp only [hparent]

theorem stored?_congr (h : AgreeOn P t u) (hfoot : ∀ m ∈ footprint t p, P m) :
    stored? t p = stored? u p := by
  rw [stored?, stored?]
  cases hq : (Address.ofPath p).toOption.bind Address.file? with
  | none => rfl
  | some q =>
      have hway := fun m hm => hfoot m (way_subset_footprint hq m hm)
      rw [Option.bind_some, Option.bind_some, ← locate?_congr h hway]
      cases hl : locate? t q with
      | none => rfl
      | some l =>
          refine h.entry l (hway l (List.mem_cons_of_mem _ ?_))
          rw [eq_destination_of_locate? hl]
          exact destination_mem_way _ _

theorem LedgerFiles.of_congr {l : Location} (h : AgreeOn P t u) (hl : P l)
    (hsides : ∀ m ∈ sides l, P m) : LedgerFiles.of t l = LedgerFiles.of u l := by
  rw [LedgerFiles.of, LedgerFiles.of, h.entry l hl, h.entry _ (hsides _ (mem_sides.2 (Or.inl rfl))),
    h.entry _ (hsides _ (mem_sides.2 (Or.inr (Or.inl rfl)))),
    h.entry _ (hsides _ (mem_sides.2 (Or.inr (Or.inr rfl))))]

theorem putAt_congr (h : AgreeOn P t u) (s : LedgerFiles) (l : Location) :
    AgreeOn P (s.putAt t l) (s.putAt u l) :=
  (((h.set _ _).set _ _).set _ _).set _ _

theorem current_putAt (s : LedgerFiles) (t : FileTree) (l : Location) :
    (s.putAt t l).current = t.current := by
  have hset : ∀ (t : FileTree) (l : Location) (e : Option Entry), (t.set l e).current = t.current :=
    fun t l e => by cases e <;> rfl
  rw [LedgerFiles.putAt, hset, hset, hset, hset]

theorem putAt_extends {files : LedgerFiles} {l : Location} (h : (LedgerFiles.of t l).Tended files)
    (hl : l ∈ s) (hsides : ∀ m ∈ sides l, m ∈ s) : Extends s t (files.putAt t l) where
  current := current_putAt files t l
  entry m hm :=
    LedgerFiles.get?_putAt_of_ne (fun heq => hm (heq ▸ hl)) fun hside => hm (hsides m hside)
  directory :=
    LedgerFiles.forall_putAt (R := fun _ e e' => e = some .directory → e' = some .directory)
      (fun _ _ => id) h.main.directory_iff.2 h.journal.directory_iff.2 h.log.directory_iff.2
      h.index.directory_iff.2

theorem openAt_congr {l : Location} (h : AgreeOn P t u) (hl : P l) (hsides : ∀ m ∈ sides l, P m)
    (access : Access) : AnswersAgree P (openAt t l access) (openAt u l access) := by
  rw [openAt, openAt, ← LedgerFiles.of_congr h hl hsides]
  exact ⟨rfl, putAt_congr h _ l⟩

theorem openAt_extends {l : Location} (t : FileTree) (hl : l ∈ s) (hsides : ∀ m ∈ sides l, m ∈ s)
    (access : Access) : Extends s t (openAt t l access).1 :=
  putAt_extends (LedgerFiles.openAs_tended _ l access) hl hsides

/-- What is opened at a location: the ledger that it held, which it holds as a ledger now, in files that are
ready to be opened again. -/
theorem opened_of_openAt {l : Location} {access : Access} {opened : Opened}
    (h : (openAt t l access).2 = .ok opened) :
    opened.location = some l ∧ opened.ledger = ledgerIn (t.get? l) ∧ l ≠ [] ∧
      (openAt t l access).1.get? l = some (.file (.ledger (ledgerIn (t.get? l)))) ∧
      (LedgerFiles.of (openAt t l access).1 l).Ready access opened.isWritable := by
  obtain ⟨hlocation, hledger, hready⟩ := LedgerFiles.openAs_ready h
  have htended := LedgerFiles.openAs_tended (LedgerFiles.of t l) l access
  have hmain := hready.main_eq htended
  have hroot : l ≠ [] := by
    rintro rfl
    rw [htended.main.directory_iff.2 rfl] at hmain
    cases hmain
  refine ⟨hlocation, hledger, hroot, ?_, ?_⟩
  · rw [openAt, LedgerFiles.get?_putAt_self _ _ hroot]
    exact hmain
  · rw [openAt, LedgerFiles.of_putAt _ _ hroot]
    exact hready

theorem openAddress_congr {a : Address} (h : AgreeOn P t u)
    (hway : ∀ q, a.file? = some q → ∀ m ∈ (destination (t.start q.anchor) q.names).dropLast ::
      way (t.start q.anchor) q.names, P m)
    (hsides : ∀ q, a.file? = some q → ∀ m ∈ sides (destination (t.start q.anchor) q.names), P m) :
    AnswersAgree P (openAddress t a) (openAddress u a) := by
  rw [openAddress, openAddress]
  cases hq : a.file? with
  | none => exact h.answers
  | some q =>
      have hlocate := locate?_congr h (hway q hq)
      simp only [← hlocate]
      cases hl : locate? t q with
      | none => exact h.answers
      | some l =>
          rw [eq_destination_of_locate? hl]
          exact openAt_congr h (hway q hq _ (List.mem_cons_of_mem _ (destination_mem_way _ _)))
            (hsides q hq) a.access

theorem openAddress_extends {a : Address} (t : FileTree)
    (hway : ∀ q, a.file? = some q → ∀ m ∈ way (t.start q.anchor) q.names, m ∈ s)
    (hsides : ∀ q, a.file? = some q → ∀ m ∈ sides (destination (t.start q.anchor) q.names), m ∈ s) :
    Extends s t (openAddress t a).1 := by
  rw [openAddress]
  cases hq : a.file? with
  | none => exact Extends.refl s t
  | some q =>
      cases hl : locate? t q with
      | none =>
          simp only [hl]
          exact Extends.refl s t
      | some l =>
          simp only [hl]
          rw [eq_destination_of_locate? hl]
          exact openAt_extends t (hway q hq _ (destination_mem_way _ _)) (hsides q hq) a.access

/-- What an address opens: a ledger in memory, or one in a file. -/
theorem opened_of_openAddress {a : Address} {opened : Opened}
    (h : (openAddress t a).2 = .ok opened) :
    (a.file? = none ∧ opened = .inMemory ∧ (openAddress t a).1 = t) ∨
      ∃ q l, a.file? = some q ∧ locate? t q = some l ∧ (openAt t l a.access).2 = .ok opened ∧
        (openAddress t a).1 = (openAt t l a.access).1 := by
  rw [openAddress] at h ⊢
  cases hq : a.file? with
  | none =>
      simp only [hq] at h
      split_ifs at h with hread
      cases h
      exact Or.inl ⟨rfl, rfl, rfl⟩
  | some q =>
      cases hlocate : locate? t q with
      | none =>
          simp only [hq, hlocate] at h
          cases h
      | some l =>
          simp only [hq, hlocate] at h ⊢
          exact Or.inr ⟨q, l, rfl, hlocate, h, rfl⟩

theorem hasNull_of_parent (h : p.parent.hasNull = true) : p.hasNull = true := by
  rw [Path.hasNull, List.any_eq_true] at h ⊢
  obtain ⟨name, hname, hnull⟩ := h
  exact ⟨name, (List.dropLast_sublist _).subset hname, hnull⟩

/-- A ledger is opened when the directory of its path is there and its path is an address; otherwise
there is a fault, and only that directory may have been made. -/
theorem openLedger_cases (t : FileTree) (p : Path) :
    (∃ fault : HistoryFault,
        (fault.isStorage = true ∨ ¬IsOrdinary p) ∧
        (openLedger t p).2 = .error fault ∧
        ((openLedger t p).1 = t ∨ (openLedger t p).1 = (t.makeDirectories p.parent).1)) ∨
      (∃ a, Address.ofPath p = .ok a ∧
        openLedger t p = openAddress (t.makeDirectories p.parent).1 a) := by
  have hordinary : p.hasNull = true → ¬IsOrdinary p := by
    rintro hnull ⟨hfree, -⟩
    rw [hnull] at hfree
    cases hfree
  rw [openLedger]
  by_cases hparent : p.parent.hasNull = true
  · rw [if_pos hparent]
    exact Or.inl ⟨.nullCharacter, Or.inr (hordinary (hasNull_of_parent hparent)), rfl, Or.inl rfl⟩
  rw [if_neg hparent]
  by_cases hdeep : maxMissing < t.missing p.parent
  · rw [if_pos hdeep]
    refine Or.inl ⟨.tooDeep, Or.inr fun hshallow => ?_, rfl, Or.inl rfl⟩
    exact Nat.not_lt.2 (Nat.le_trans (missing_le t p.parent) hshallow.2) hdeep
  rw [if_neg hdeep]
  rcases t.makeDirectories p.parent with ⟨made, fault | ⟨⟩⟩
  · exact Or.inl ⟨.file fault, Or.inl (HistoryFault.isStorage_file fault), rfl, Or.inr rfl⟩
  by_cases hnull : p.hasNull = true
  · simp only [if_pos hnull]
    exact Or.inl ⟨.nullCharacter, Or.inr (hordinary hnull), rfl, Or.inr trivial⟩
  · simp only [if_neg hnull]
    cases ha : Address.ofPath p with
    | error fault => exact Or.inl ⟨.address fault, Or.inl rfl, rfl, Or.inr rfl⟩
    | ok a => exact Or.inr ⟨a, rfl, rfl⟩

theorem parent_way_subset_footprint (t : FileTree) (p : Path) :
    ∀ m ∈ way (t.start p.parent.anchor) p.parent.names, m ∈ footprint t p :=
  fun _ hm => List.mem_append_left _ hm

theorem parent_way_subset_reach (t : FileTree) (p : Path) :
    ∀ m ∈ way (t.start p.parent.anchor) p.parent.names, m ∈ reach t p :=
  fun m hm => footprint_subset_reach t p m (parent_way_subset_footprint t p m hm)

theorem openLedger_extends (t : FileTree) (p : Path) :
    Extends (reach t p) t (openLedger t p).1 := by
  have hmake := Extends.makeDirectories t p.parent (parent_way_subset_reach t p)
  rcases openLedger_cases t p with ⟨fault, -, -, h | h⟩ | ⟨a, ha, h⟩
  · rw [h]
    exact Extends.refl _ t
  · rw [h]
    exact hmake
  · rw [h]
    refine hmake.trans (openAddress_extends _ (fun q hq m hm => ?_) fun q hq m hm => ?_)
    · rw [hmake.start q.anchor] at hm
      exact (surroundings_subset_reach ha hq).1 m (List.mem_cons_of_mem _ hm)
    · rw [hmake.start q.anchor] at hm
      exact (surroundings_subset_reach ha hq).2 m hm

/-- Files that are ready to be opened again under a path. -/
def ReadyFor (p : Path) (writable : Bool) (s : LedgerFiles) : Prop :=
  ∃ a, Address.ofPath p = .ok a ∧ s.Ready a.access writable

theorem opened_of_openLedger {opened : Opened} (h : (openLedger t p).2 = .ok opened) {l : Location}
    (hl : opened.location = some l) :
    l ∈ footprint t p ∧ database? t p = some l ∧ l ≠ [] ∧
      ReadyFor p opened.isWritable (LedgerFiles.of (openLedger t p).1 l) := by
  have hmake := Extends.makeDirectories t p.parent (parent_way_subset_footprint t p)
  rcases openLedger_cases t p with ⟨fault, -, hfault, -⟩ | ⟨a, ha, heq⟩
  · rw [hfault] at h
    cases h
  · rw [heq] at h ⊢
    rcases opened_of_openAddress h with ⟨-, rfl, -⟩ | ⟨q, l', hq, hlocate, hopen, hfiles⟩
    · cases hl
    · obtain ⟨hlocation, -, hroot, -, hready⟩ := opened_of_openAt hopen
      cases hl.symm.trans hlocation
      have hl' := eq_destination_of_locate? hlocate
      rw [hmake.start q.anchor] at hl'
      refine ⟨?_, hl' ▸ database?_of_file ha hq, hroot, a, ha, hfiles ▸ hready⟩
      refine way_subset_footprint ((file?_eq_of_ofPath ha).trans hq) l (List.mem_cons_of_mem _ ?_)
      rw [hl']
      exact destination_mem_way _ _

theorem save_extends {opened : Opened} {l : Location} {writable : Bool} (ledger : Ledger)
    (hlocation : opened.location = some l) (hready : ReadyFor p writable (LedgerFiles.of t l))
    (hl : l ∈ s) (hsides : ∀ m ∈ sides l, m ∈ s) : Extends s t (save t opened ledger) := by
  obtain ⟨a, -, hready⟩ := hready
  rw [save, hlocation]
  refine ⟨current_putAt _ t l, fun m hm => ?_, ?_⟩
  · exact LedgerFiles.get?_putAt_of_ne (fun heq => hm (heq ▸ hl)) fun hside => hm (hsides m hside)
  · refine LedgerFiles.forall_putAt (R := fun _ e e' => e = some .directory → e' = some .directory)
      (fun _ _ => id) (fun hmain => ?_) (fun hjournal => ?_) id id
    · obtain ⟨ledger', hledger⟩ := hready.ledger
      cases hledger.symm.trans hmain
    · have hnone := hready.journal
      rw [hjournal] at hnone
      cases hnone

theorem openLedger_congr (h : AgreeOn P t u) (hreach : ∀ m ∈ reach t p, P m) :
    AnswersAgree P (openLedger t p) (openLedger u p) := by
  rw [openLedger, openLedger]
  by_cases hparent : p.parent.hasNull = true
  · rw [if_pos hparent, if_pos hparent]
    exact h.answers
  rw [if_neg hparent, if_neg hparent]
  have hway : ∀ m ∈ way (t.start p.parent.anchor) p.parent.names, P m :=
    fun m hm => hreach m (parent_way_subset_reach t p m hm)
  rw [← h.missing p.parent hway]
  by_cases hdeep : maxMissing < t.missing p.parent
  · rw [if_pos hdeep, if_pos hdeep]
    exact h.answers
  rw [if_neg hdeep, if_neg hdeep]
  have hmade := h.makeDirectories p.parent hway
  have hstart := (Extends.makeDirectories t p.parent (parent_way_subset_footprint t p)).start
  rcases ht : t.makeDirectories p.parent with ⟨t', x⟩
  rcases hu : u.makeDirectories p.parent with ⟨u', y⟩
  rw [ht, hu] at hmade
  rw [ht] at hstart
  obtain ⟨rfl, hagree⟩ := hmade
  cases x with
  | error fault => exact hagree.answers
  | ok made =>
      by_cases hnull : p.hasNull = true
      · simp only [if_pos hnull]
        exact hagree.answers
      simp only [if_neg hnull]
      cases ha : Address.ofPath p with
      | error fault => exact hagree.answers
      | ok a =>
          refine openAddress_congr hagree (fun q hq m hm => hreach m ?_) fun q hq m hm => hreach m ?_
          · rw [hstart q.anchor] at hm
            exact (surroundings_subset_reach ha hq).1 m hm
          · rw [hstart q.anchor] at hm
            exact (surroundings_subset_reach ha hq).2 m hm

/-- All that opening to change can do: a fault, with the tree that opening left, or a ledger that may
be changed. -/
theorem openWritable_cases (t : FileTree) (p : Path) :
    (∃ fault, (fault = .notWritable ∨ (openLedger t p).2 = .error fault) ∧
        openWritable t p = ((openLedger t p).1, .error fault)) ∨
      (∃ opened, (openLedger t p).2 = .ok opened ∧
        openWritable t p = ((openLedger t p).1, .ok opened)) := by
  rw [openWritable]
  rcases openLedger t p with ⟨opened, fault | ledger⟩
  · exact Or.inl ⟨fault, Or.inr rfl, rfl⟩
  · by_cases hwritable : ledger.isWritable = true
    · simp only [if_pos hwritable]
      exact Or.inr ⟨ledger, rfl, rfl⟩
    · simp only [if_neg hwritable]
      exact Or.inl ⟨.notWritable, Or.inl rfl, rfl⟩

theorem openWritable_congr (h : AgreeOn P t u) (hreach : ∀ m ∈ reach t p, P m) :
    AnswersAgree P (openWritable t p) (openWritable u p) := by
  have hopen := openLedger_congr h hreach
  rw [openWritable, openWritable]
  rcases ht : openLedger t p with ⟨t', x⟩
  rcases hu : openLedger u p with ⟨u', y⟩
  rw [ht, hu] at hopen
  obtain ⟨rfl, hagree⟩ := hopen
  cases x with
  | error fault => exact hagree.answers
  | ok opened =>
      by_cases hwritable : opened.isWritable = true
      · simp only [if_pos hwritable]
        exact hagree.answers
      · simp only [if_neg hwritable]
        exact hagree.answers

/-! ### Insertion -/

/-- An insertion, by what it does to the files alone. -/
def insertion (t : FileTree) (p : Path) (input result : String) :
    FileTree × Except HistoryFault Record :=
  match openWritable t p with
  | (t, .error fault) => (t, .error fault)
  | (t, .ok opened) =>
    (save t opened (opened.ledger.insert input result), .ok (opened.ledger.next input result))

theorem insert_eq_insertion (w : World) (p : Path) (input result : String) :
    (insert w p input result).1.files = (insertion w.files p input result).1 ∧
      (insert w p input result).2 = (insertion w.files p input result).2 := by
  rw [insert, insertion]
  rcases openWritable w.files p with ⟨t, fault | opened⟩ <;> exact ⟨rfl, rfl⟩

theorem save_congr {opened : Opened} (h : AgreeOn P t u) (ledger : Ledger)
    (hreach : ∀ l, opened.location = some l → P l ∧ ∀ m ∈ sides l, P m) :
    AgreeOn P (save t opened ledger) (save u opened ledger) := by
  rw [save, save]
  cases hl : opened.location with
  | none => exact h
  | some l =>
      simp only [← LedgerFiles.of_congr h (hreach l hl).1 (hreach l hl).2]
      exact putAt_congr h _ l

theorem insertion_congr (h : AgreeOn P t u) (hreach : ∀ m ∈ reach t p, P m)
    (input result : String) :
    AnswersAgree P (insertion t p input result) (insertion u p input result) := by
  have hopen := openWritable_congr h hreach
  rw [insertion, insertion]
  rcases openWritable_cases t p with ⟨fault, -, ht⟩ | ⟨opened, hopened, ht⟩ <;> rw [ht] at hopen ⊢ <;>
    rcases hu : openWritable u p with ⟨u', y⟩ <;> rw [hu] at hopen <;>
    obtain ⟨rfl, hagree⟩ := hopen
  · exact hagree.answers
  · refine ⟨rfl, save_congr hagree _ fun l hl => ?_⟩
    obtain ⟨hmem, hdatabase, -⟩ := opened_of_openLedger hopened hl
    refine ⟨hreach l (footprint_subset_reach t p l hmem), fun m hm => hreach m ?_⟩
    exact List.mem_append_right _ (sidesOf_of_database hdatabase ▸ hm)

theorem insertion_extends (t : FileTree) (p : Path) (input result : String) :
    Extends (reach t p) t (insertion t p input result).1 := by
  have hopen := openLedger_extends t p
  rw [insertion]
  rcases openWritable_cases t p with ⟨fault, -, h⟩ | ⟨opened, hledger, h⟩
  · rw [h]
    exact hopen
  · rw [h]
    cases hl : opened.location with
    | none =>
        simp only [save, hl]
        exact hopen
    | some l =>
        obtain ⟨hmem, hdatabase, -, hready⟩ := opened_of_openLedger hledger hl
        refine hopen.trans (save_extends _ hl hready (footprint_subset_reach t p l hmem) fun m hm => ?_)
        exact List.mem_append_right _ (sidesOf_of_database hdatabase ▸ hm)

theorem isStorage_of_openAddress {a : Address} {fault : HistoryFault}
    (h : (openAddress t a).2 = .error fault) : fault.isStorage = true := by
  rw [openAddress] at h
  cases hq : a.file? with
  | none =>
      simp only [hq] at h
      split_ifs at h with hread
      cases h
      rfl
  | some q =>
      cases hl : locate? t q with
      | none =>
          simp only [hq, hl] at h
          cases h
          rfl
      | some l =>
          simp only [hq, hl] at h
          exact LedgerFiles.isStorage_of_openAs h

/-- On a path that is ordinary, opening fails for a fault of the storage alone. -/
theorem fault_of_openLedger {fault : HistoryFault} (h : (openLedger t p).2 = .error fault) :
    fault.isStorage = true ∨ ¬IsOrdinary p := by
  rcases openLedger_cases t p with ⟨fault', hkind, hfault, -⟩ | ⟨a, -, heq⟩
  · rw [hfault] at h
    cases h
    exact hkind
  · rw [heq] at h
    exact Or.inl (isStorage_of_openAddress h)

theorem fault_of_openWritable {fault : HistoryFault} (h : (openWritable t p).2 = .error fault) :
    fault.isStorage = true ∨ ¬IsOrdinary p := by
  rcases openWritable_cases t p with ⟨fault', hkind, heq⟩ | ⟨opened, -, heq⟩
  · rw [heq] at h
    cases h
    rcases hkind with rfl | hfault
    · exact Or.inl rfl
    · exact fault_of_openLedger hfault
  · rw [heq] at h
    cases h

theorem fault_of_insertion {input result : String} {fault : HistoryFault}
    (h : (insertion t p input result).2 = .error fault) :
    fault.isStorage = true ∨ ¬IsOrdinary p := by
  refine fault_of_openWritable (t := t) ?_
  rw [insertion] at h
  rcases hopen : openWritable t p with ⟨files, fault' | opened⟩
  · rw [hopen] at h
    cases h
    rfl
  · rw [hopen] at h
    cases h

end History
end Reckoner
