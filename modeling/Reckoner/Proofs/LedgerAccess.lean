import Mathlib.Data.List.Basic
import Reckoner.Proofs.LedgerView
import Reckoner.Proofs.TreeGrowth

/-! Paths that lead to a ledger, and go on doing so. A path leads to a ledger when it can be opened and its
file is not in its own way (`Leads`), and it still does in a tree that has grown, if no new file is on its
passage and the files of the ledger are as they were, or as opening left them (`Leads.of_grows`). All that
calls on the history do is growth. -/

namespace Reckoner

open FileTree

namespace History

variable {D F : Location → Prop} {t u : FileTree} {p q : Path} {l : Location} {writable : Bool}

/-- The directories that calls on the path of a history go through: those of the path, and those that
its address names. -/
def passage (t : FileTree) (p : Path) : List Location :=
  way (t.start p.anchor) p.parent.names ++
    match (Address.ofPath p).toOption.bind Address.file? with
    | none => []
    | some q => way (t.start q.anchor) q.names.dropLast

/-- A path opens the ledger at a location, to be changed or to be read alone. -/
def Opens (t : FileTree) (p : Path) (l : Location) (writable : Bool) : Prop :=
  ∃ opened, (openLedger t p).2 = .ok opened ∧ opened.location = some l ∧ opened.isWritable = writable

/-- A path leads to the ledger at a location: it can be opened, to be changed or to be read alone, and
the file is not on its own passage, where it would be in the way once it is there. -/
structure Leads (t : FileTree) (p : Path) (l : Location) (writable : Bool) : Prop where
  opens : Opens t p l writable
  apart : l ∉ passage t p

theorem passage_eq_of_start (h : ∀ a, u.start a = t.start a) (p : Path) :
    passage u p = passage t p := by
  simp only [passage, h]

theorem parent_tail_subset_passage :
    ∀ m ∈ (way (t.start p.parent.anchor) p.parent.names).tail, m ∈ passage t p :=
  fun _ hm => List.mem_append_left _ (List.mem_of_mem_tail hm)

theorem address_way_subset_passage
    (hq : (Address.ofPath p).toOption.bind Address.file? = some q) :
    ∀ m ∈ way (t.start q.anchor) q.names.dropLast, m ∈ passage t p := by
  intro m hm
  rw [passage, hq]
  exact List.mem_append_right _ hm

theorem resolve?_mono {names : List String} {l l' : Location} (h : resolve? t l names = some l')
    (hfile : ∀ m ∈ way l names.dropLast, ∀ content, u.get? m = some (.file content) →
      t.get? m = some (.file content)) : resolve? u l names = some l' := by
  induction names generalizing l with
  | nil => exact h
  | cons name names ih =>
      have hrest : names = [] ∨ ∀ m ∈ way (step l name) names.dropLast, ∀ content,
          u.get? m = some (.file content) → t.get? m = some (.file content) := by
        cases names with
        | nil => exact Or.inl rfl
        | cons next names => exact Or.inr fun m hm => hfile m (List.mem_cons_of_mem _ hm)
      have hnext : resolve? t (step l name) names = some l' →
          resolve? u (step l name) names = some l' := by
        rcases hrest with rfl | hrest
        · exact id
        · exact fun h => ih h hrest
      rw [resolve?] at h ⊢
      by_cases hparent : name = ".."
      · rw [if_pos hparent] at h ⊢
        rw [step, if_pos hparent] at hnext
        exact hnext h
      rw [if_neg hparent] at h ⊢
      rw [step, if_neg hparent] at hnext
      by_cases hlong : Path.isLongName name = true
      · rw [if_pos hlong] at h
        cases h
      rw [if_neg hlong] at h ⊢
      cases hu : u.get? l with
      | none =>
          refine hnext ?_
          split at h
          · cases h
          · exact h
      | some e =>
          cases e with
          | directory =>
              refine hnext ?_
              split at h
              · cases h
              · exact h
          | file content =>
              rw [hfile l (mem_way_self l _) content hu] at h
              cases h

theorem locate?_mono (hstart : u.start q.anchor = t.start q.anchor)
    (hdirectory : ∀ m, t.get? m = some .directory → u.get? m = some .directory)
    (hfile : ∀ m ∈ way (t.start q.anchor) q.names.dropLast, ∀ content,
      u.get? m = some (.file content) → t.get? m = some (.file content))
    (h : locate? t q = some l) : locate? u q = some l := by
  rw [locate?] at h ⊢
  rw [hstart]
  cases hresolve : resolve? t (t.start q.anchor) q.names with
  | none =>
      rw [hresolve] at h
      cases h
  | some l' =>
      rw [hresolve] at h
      rw [resolve?_mono hresolve hfile]
      simp only [Bool.or_eq_true, decide_eq_true_eq, bne_iff_ne, ne_eq] at h ⊢
      split_ifs at h with hrefused
      rw [not_or, not_not] at hrefused
      rw [if_neg (not_or.2 ⟨hrefused.1, not_not.2 (hdirectory _ hrefused.2)⟩)]
      exact h

/-- All that has to hold for a ledger in a file to be opened. -/
theorem Opens.parts (h : Opens t p l writable) :
    p.hasNull = false ∧ t.missing p.parent ≤ maxMissing ∧ (t.makeDirectories p.parent).2 = .ok () ∧
      ∃ a q opened, Address.ofPath p = .ok a ∧ a.file? = some q ∧
        locate? (t.makeDirectories p.parent).1 q = some l ∧
        (openAt (t.makeDirectories p.parent).1 l a.access).2 = .ok opened ∧
        opened.isWritable = writable := by
  obtain ⟨opened, h, hlocation, hwritable⟩ := h
  rw [openLedger] at h
  by_cases hparent : p.parent.hasNull = true
  · rw [if_pos hparent] at h
    cases h
  rw [if_neg hparent] at h
  by_cases hdeep : maxMissing < t.missing p.parent
  · rw [if_pos hdeep] at h
    cases h
  rw [if_neg hdeep] at h
  rcases hmake : t.makeDirectories p.parent with ⟨made, fault | done⟩
  · simp only [hmake] at h
    cases h
  simp only [hmake] at h
  by_cases hnull : p.hasNull = true
  · rw [if_pos hnull] at h
    cases h
  rw [if_neg hnull] at h
  refine ⟨Bool.not_eq_true _ ▸ hnull, Nat.not_lt.1 hdeep, rfl, ?_⟩
  cases ha : Address.ofPath p with
  | error fault =>
      rw [ha] at h
      cases h
  | ok a =>
      rw [ha] at h
      rcases opened_of_openAddress h with ⟨-, rfl, -⟩ | ⟨q, l', hq, hl, hopen, -⟩
      · cases hlocation
      · cases hlocation.symm.trans (opened_of_openAt hopen).1
        exact ⟨a, q, opened, rfl, hq, hl, hopen, hwritable⟩

theorem Opens.of_parts {a : Address} {opened : Opened} (hnull : p.hasNull = false)
    (hdeep : t.missing p.parent ≤ maxMissing) (hmake : (t.makeDirectories p.parent).2 = .ok ())
    (ha : Address.ofPath p = .ok a) (hq : a.file? = some q) (hl : locate? (t.makeDirectories p.parent).1 q = some l)
    (h : (openAt (t.makeDirectories p.parent).1 l a.access).2 = .ok opened)
    (hwritable : opened.isWritable = writable) : Opens t p l writable := by
  have hparent : ¬p.parent.hasNull = true := fun hparent => by
    rw [hasNull_of_parent hparent] at hnull
    cases hnull
  refine ⟨opened, ?_, (opened_of_openAt h).1, hwritable⟩
  rw [openLedger, if_neg hparent, if_neg (Nat.not_lt.2 hdeep)]
  rcases hmade : t.makeDirectories p.parent with ⟨made, fault | done⟩
  · rw [hmade] at hmake
    cases hmake
  · rw [hmade] at hl h
    simp only [hnull, ha, openAddress, hq]
    rw [show locate? made q = some l from hl]
    exact h

theorem Opens.database?_eq (h : Opens t p l writable) : database? t p = some l := by
  obtain ⟨opened, hopen, hlocation, -⟩ := h
  exact (openLedger_ok hopen).1.symm.trans hlocation

theorem Opens.ledgerOf_eq (h : Opens t p l writable) : ledgerOf t p = ledgerAt t l :=
  ledgerOf_of_database h.database?_eq

theorem Opens.ready (h : Opens t p l writable) :
    ReadyFor p writable (LedgerFiles.of (openLedger t p).1 l) := by
  obtain ⟨opened, hopen, hlocation, rfl⟩ := h
  exact (opened_of_openLedger hopen hlocation).2.2.2

theorem ne_root_of_opens (h : Opens t p l writable) : l ≠ [] := by
  obtain ⟨opened, hopen, hlocation, -⟩ := h
  exact (opened_of_openLedger hopen hlocation).2.2.1

theorem Leads.database?_eq (h : Leads t p l writable) : database? t p = some l :=
  Opens.database?_eq h.opens

theorem Leads.ledgerOf_eq (h : Leads t p l writable) : ledgerOf t p = ledgerAt t l :=
  Opens.ledgerOf_eq h.opens

/-- Directories that were made for a path are at neither the journal nor the log of the ledger that it opens. -/
theorem not_mem_of_openAt {D : Location → Prop} {access : Access} {opened : Opened}
    (h : (openAt t l access).2 = .ok opened) (hmade : ∀ m, D m → t.get? m = some .directory) :
    ¬D (journalOf l) ∧ ¬D (logOf l) := by
  have htended := LedgerFiles.openAs_tended (LedgerFiles.of t l) l access
  obtain ⟨-, -, hready⟩ := LedgerFiles.openAs_ready h
  refine ⟨fun hD => ?_, fun hD => ?_⟩
  · have hjournal := isDirectory_iff.2 (htended.journal.directory_iff.2 (hmade _ hD))
    rw [hready.journal] at hjournal
    cases hjournal
  · have hlog := isDirectory_iff.2 (htended.log.directory_iff.2 (hmade _ hD))
    rw [hready.log] at hlog
    cases hlog

/-- The tree once the directories of a path are made. -/
abbrev made (t : FileTree) (p : Path) : FileTree :=
  (t.makeDirectories p.parent).1

/-- Making the directories of a path changes those alone. -/
theorem grows_made (t : FileTree) (p : Path) :
    Grows (· ∈ (way (t.start p.parent.anchor) p.parent.names).tail) (fun _ => False) t (made t p) :=
  Grows.makeDirectories t p.parent fun _ hm => hm

/-- What a path leads through can be made in a tree that has grown as well, when no new file is on its
passage, and then nothing of it is lost. -/
theorem made_of_grows (hgrows : Grows D F t u)
    (hoff : ∀ m ∈ passage t p, ∀ content, u.get? m = some (.file content) →
      t.get? m = some (.file content))
    (hmake : (t.makeDirectories p.parent).2 = .ok ()) :
    (u.makeDirectories p.parent).2 = .ok () ∧
      (∀ m, (made t p).get? m = some .directory → (made u p).get? m = some .directory) ∧
      ∀ m ∈ passage t p, ∀ content, (made u p).get? m = some (.file content) →
        (made t p).get? m = some (.file content) := by
  have hfree := ((makeDirectories_ok_iff t p.parent).1 hmake).2.2
  have hmake' : (u.makeDirectories p.parent).2 = .ok () := by
    rw [makeDirectories_ok_iff] at hmake ⊢
    rw [hgrows.start p.parent.anchor]
    exact ⟨hmake.1, hmake.2.1, fun m hm content hfile =>
      hfree m hm content (hoff m (parent_tail_subset_passage m hm) content hfile)⟩
  have hway' := makeDirectories_directory hmake'
  rw [hgrows.start p.parent.anchor] at hway'
  refine ⟨hmake', fun m hm => ?_, fun m hm content hcontent => ?_⟩
  · rcases (grows_made t p).directory_cases hm with hnew | hold
    · exact hway' m hnew
    · exact (grows_made u p).directory (hgrows.directory hold)
  · have ht := hoff m hm content (((grows_made u p).file hcontent).resolve_left id)
    exact ((grows_made t p).entry (fun hnew => hfree m hnew content ht) id).trans ht

/-- The files of a ledger that a path opens are not touched by making its directories, wherever it is made. -/
theorem of_made_of_grows {access : Access} {opened : Opened} (hgrows : Grows D F t u)
    (hmake : (t.makeDirectories p.parent).2 = .ok ()) (hapart : l ∉ passage t p)
    (h : (openAt (made t p) l access).2 = .ok opened) :
    (made u p).get? l = u.get? l ∧ (made u p).get? (journalOf l) = u.get? (journalOf l) ∧
      (made u p).get? (logOf l) = u.get? (logOf l) ∧
      (indexOf l ∉ passage t p → (made u p).get? (indexOf l) = u.get? (indexOf l)) := by
  obtain ⟨hjournal, hlog⟩ := not_mem_of_openAt h (makeDirectories_directory hmake)
  have hmade := grows_made u p
  rw [hgrows.start p.parent.anchor] at hmade
  exact ⟨hmade.entry (fun hm => hapart (parent_tail_subset_passage l hm)) id, hmade.entry hjournal id,
    hmade.entry hlog id, fun hx => hmade.entry (fun hm => hx (parent_tail_subset_passage _ hm)) id⟩

/-- When the files of a ledger that a path opens are as they were, they still are once its directories are made. -/
theorem of_made_congr {access : Access} {opened : Opened} (hgrows : Grows D F t u)
    (hmake : (t.makeDirectories p.parent).2 = .ok ()) (hmake' : (u.makeDirectories p.parent).2 = .ok ())
    (hapart : l ∉ passage t p) (h : (openAt (made t p) l access).2 = .ok opened)
    (hsame : LedgerFiles.of u l = LedgerFiles.of t l) :
    LedgerFiles.of (made u p) l = LedgerFiles.of (made t p) l := by
  obtain ⟨hl, hjournal, hlog, -⟩ := of_made_of_grows (Grows.refl D F t) hmake hapart h
  obtain ⟨hl', hjournal', hlog', -⟩ := of_made_of_grows hgrows hmake hapart h
  rw [LedgerFiles.of, LedgerFiles.of, LedgerFiles.mk.injEq] at hsame
  rw [LedgerFiles.of, LedgerFiles.of, hl, hl', hjournal, hjournal', hlog, hlog',
    hsame.1, hsame.2.1, hsame.2.2.1]
  -- the index alone may be in the place of a directory of the path
  by_cases hx : indexOf l ∈ (way (t.start p.parent.anchor) p.parent.names).tail
  · have hx' := hx
    rw [← hgrows.start p.parent.anchor] at hx'
    rw [makeDirectories_directory hmake _ hx, makeDirectories_directory hmake' _ hx']
  · have hmade' := grows_made u p
    rw [hgrows.start p.parent.anchor] at hmade'
    rw [(grows_made t p).entry hx id, hmade'.entry hx id, hsame.2.2.2]

/-- A path that leads to a ledger leads there still in a tree that has grown, when no new file is on its
passage and the files of the ledger are as they were, or ready to be opened again. -/
theorem Leads.of_grows (h : Leads t p l writable) (hgrows : Grows D F t u)
    (hoff : ∀ m ∈ passage t p, ∀ content, u.get? m = some (.file content) →
      t.get? m = some (.file content))
    (hfiles : LedgerFiles.of u l = LedgerFiles.of t l ∨
      ReadyFor p writable (LedgerFiles.of u l) ∧ (writable = true ∨ indexOf l ∉ passage t p)) :
    Leads u p l writable := by
  obtain ⟨hnull, hdeep, hmake, a, q, opened, ha, hq, hlocate, hopenAt, hwritable⟩ := h.opens.parts
  have hqfile := (file?_eq_of_ofPath ha).trans hq
  obtain ⟨hmake', hdirectory, hfile⟩ := made_of_grows hgrows hoff hmake
  have hdeep' : u.missing p.parent ≤ maxMissing :=
    Nat.le_trans (missing_mono hgrows.start (fun m => hgrows.directory)
      ((makeDirectories_ok_iff t p.parent).1 hmake).2.2) hdeep
  have hlocate' := locate?_mono
    (by rw [(grows_made u p).start, hgrows.start, (grows_made t p).start]) hdirectory
    (fun m hm => hfile m (address_way_subset_passage hqfile m ((grows_made t p).start q.anchor ▸ hm)))
    hlocate
  obtain ⟨hl, hjournal, hlog, hindexOf⟩ := of_made_of_grows hgrows hmake h.apart hopenAt
  obtain ⟨opened', hopenAt', hwritable'⟩ : ∃ opened',
      (openAt (made u p) l a.access).2 = .ok opened' ∧ opened'.isWritable = writable := by
    rcases hfiles with hsame | ⟨⟨a', ha', hready⟩, hindex⟩
    · refine ⟨opened, ?_, hwritable⟩
      rw [openAt, of_made_congr hgrows hmake hmake' h.apart hopenAt hsame]
      exact hopenAt
    · cases ha.symm.trans ha'
      exact LedgerFiles.Ready.openAs_eq
        (hready.congr hl hjournal hlog (hindex.imp_right hindexOf)) l
  refine ⟨Opens.of_parts hnull hdeep' hmake' ha hq hlocate' hopenAt' hwritable', ?_⟩
  rw [passage_eq_of_start hgrows.start]
  exact h.apart

/-! ### Calls -/

theorem Yields.change {e e' : Option Entry} {d f : Prop} (h : Yields e e') (hf : f) :
    Change d f e e' := by
  rcases h with rfl | ⟨he, he', -⟩
  · exact .same _
  · exact .file hf he he'

theorem openAt_grows (hF : F l) (hsides : ∀ m ∈ sides l, F m) (t : FileTree) (access : Access) :
    Grows D F t (openAt t l access).1 := by
  have htended := LedgerFiles.openAs_tended (LedgerFiles.of t l) l access
  refine ⟨current_putAt _ t l, LedgerFiles.forall_putAt (R := fun m => Change (D m) (F m))
    (fun _ _ => .same _) (htended.main.change hF) (htended.journal.change ?_) (htended.log.change ?_)
    (htended.index.change ?_)⟩
  · exact hsides _ (mem_sides.2 (Or.inl rfl))
  · exact hsides _ (mem_sides.2 (Or.inr (Or.inl rfl)))
  · exact hsides _ (mem_sides.2 (Or.inr (Or.inr rfl)))

/-- The file of a path, and those that the storage knows beside it. -/
def IsFileOf (t : FileTree) (p : Path) (m : Location) : Prop :=
  database? t p = some m ∨ m ∈ sidesOf t p

theorem isFileOf_eq_of_start (h : ∀ a, u.start a = t.start a) (p : Path) (m : Location) :
    IsFileOf u p m = IsFileOf t p m := by
  rw [IsFileOf, IsFileOf, database?_eq_of_start h, sidesOf_eq_of_start h]

/-- Opening makes directories on the passage of a path, and changes files where the path leads and beside. -/
theorem openLedger_grows (t : FileTree) (p : Path) :
    Grows (· ∈ passage t p) (IsFileOf t p) t (openLedger t p).1 := by
  have hmake : Grows (· ∈ passage t p) (IsFileOf t p) t (t.makeDirectories p.parent).1 :=
    Grows.makeDirectories t p.parent parent_tail_subset_passage
  rcases openLedger_cases t p with ⟨fault, -, -, h | h⟩ | ⟨a, ha, h⟩
  · rw [h]
    exact Grows.refl _ _ t
  · rw [h]
    exact hmake
  · rw [h, openAddress]
    cases hq : a.file? with
    | none => exact hmake
    | some q =>
        cases hl : locate? (t.makeDirectories p.parent).1 q with
        | none =>
            simp only [hl]
            exact hmake
        | some l =>
            simp only [hl]
            have hl' := eq_destination_of_locate? hl
            rw [hmake.start q.anchor] at hl'
            have hdatabase : database? t p = some l := hl' ▸ database?_of_file ha hq
            refine hmake.trans (openAt_grows (Or.inl hdatabase) (fun m hm => Or.inr ?_) _ a.access)
            rw [sidesOf_of_database hdatabase]
            exact hm

/-- The files after a call: those before it, those that opening left, or those with a ledger put back
where it was opened. -/
theorem files_perform (w : World) (p : Path) (c : Call) :
    (perform w p c).1.files = w.files ∨ (perform w p c).1.files = (openLedger w.files p).1 ∨
      ∃ opened ledger, (openLedger w.files p).2 = .ok opened ∧
        (perform w p c).1.files = save (openLedger w.files p).1 opened ledger := by
  cases c with
  | insert input result =>
      have hfiles : (perform w p (.insert input result)).1 = (insert w p input result).1 := rfl
      rw [hfiles, insert]
      rcases openWritable_cases w.files p with ⟨fault, -, heq⟩ | ⟨opened, hopened, heq⟩
      · rw [heq]
        exact Or.inr (Or.inl rfl)
      · rw [heq]
        exact Or.inr (Or.inr ⟨opened, _, hopened, rfl⟩)
  | recent limit =>
      have hfiles : (perform w p (.recent limit)).1 = (recent w p limit).1 := rfl
      rw [hfiles, recent]
      by_cases hsmall : limit < 1
      · rw [if_pos hsmall]
        exact Or.inl rfl
      · rw [if_neg hsmall]
        refine Or.inr (Or.inl ?_)
        rcases openLedger w.files p with ⟨files, fault | opened⟩
        · rfl
        · simp only
          split_ifs <;> rfl
  | clear =>
      have hfiles : (perform w p .clear).1 = (clear w p).1 := rfl
      rw [hfiles, clear]
      rcases openWritable_cases w.files p with ⟨fault, -, heq⟩ | ⟨opened, hopened, heq⟩
      · rw [heq]
        exact Or.inr (Or.inl rfl)
      · rw [heq]
        exact Or.inr (Or.inr ⟨opened, _, hopened, rfl⟩)

theorem perform_grows (w : World) (p : Path) (c : Call) :
    Grows (· ∈ passage w.files p) (IsFileOf w.files p) w.files (perform w p c).1.files := by
  have hopen := openLedger_grows w.files p
  rcases files_perform w p c with h | h | ⟨opened, ledger, hopened, h⟩
  · rw [h]
    exact Grows.refl _ _ _
  · rw [h]
    exact hopen
  · rw [h]
    cases hl : opened.location with
    | none =>
        simp only [save, hl]
        exact hopen
    | some l =>
        obtain ⟨-, hdatabase, -, a, -, hready⟩ := opened_of_openLedger hopened hl
        refine hopen.trans ⟨?_, ?_⟩ <;> simp only [save, hl]
        · exact current_putAt _ _ l
        · refine LedgerFiles.forall_putAt
            (R := fun m => Change (m ∈ passage w.files p) (IsFileOf w.files p m)) (fun _ _ => .same _)
            ?_ ?_ (.same _) (.same _)
          · obtain ⟨ledger', hledger⟩ := hready.ledger
            refine .file (Or.inl hdatabase) ?_ fun h => by cases h
            rw [hledger]
            exact fun h => by cases h
          · rcases LedgerFiles.loses_journal_save (LedgerFiles.of (openLedger w.files p).1 l) opened
              ledger with hsame | hnone
            · rw [hsame]
              exact .same _
            · rw [hnone]
              refine .file (Or.inr ?_) (fun h => ?_) fun h => by cases h
              · rw [sidesOf_of_database hdatabase]
                exact mem_sides.2 (Or.inl rfl)
              · rw [← isDirectory_iff, hready.journal] at h
                cases h

variable {w : World}

/-- After a call on a path the files of its ledger are as they were, or ready to be opened again. -/
theorem Opens.ready_perform (h : Opens w.files p l writable) (c : Call) :
    (perform w p c).1.files = w.files ∨
      ReadyFor p writable (LedgerFiles.of (perform w p c).1.files l) := by
  rcases files_perform w p c with hfiles | hfiles | ⟨opened, ledger, hopened, hfiles⟩
  · exact Or.inl hfiles
  · rw [hfiles]
    exact Or.inr h.ready
  · obtain ⟨a, ha, hready⟩ := h.ready
    obtain ⟨hlocation, -, hentry⟩ := openLedger_ok hopened
    rw [h.database?_eq] at hlocation
    have hroot := ne_root_of_free (ne_directory_of_file (hentry l h.database?_eq))
    rw [hfiles, save, hlocation]
    simp only [LedgerFiles.of_putAt _ _ hroot]
    exact Or.inr ⟨a, ha, hready.save opened ledger⟩

/-- Opening a ledger leaves no new file but that of the ledger, and perhaps an index. -/
theorem Opens.file_openLedger (h : Opens t p l writable) {m : Location} {content : FileContent}
    (hm : m ≠ l) (hindex : writable = true ∨ m ≠ indexOf l)
    (hfile : (openLedger t p).1.get? m = some (.file content)) :
    t.get? m = some (.file content) := by
  obtain ⟨opened, hopen, hlocation, rfl⟩ := h
  have hmake : Grows (fun _ => True) (fun _ => False) t (t.makeDirectories p.parent).1 :=
    Grows.makeDirectories _ p.parent fun _ _ => trivial
  rcases openLedger_cases t p with ⟨fault, -, hfault, -⟩ | ⟨a, ha, heq⟩
  · cases hopen.symm.trans hfault
  rw [heq] at hopen hfile
  rcases opened_of_openAddress hopen with ⟨-, rfl, -⟩ | ⟨q, l', -, -, hopenAt, hfiles⟩
  · cases hlocation
  cases hlocation.symm.trans (opened_of_openAt hopenAt).1
  rw [hfiles] at hfile
  have hlose := LedgerFiles.openAs_sides hopenAt
  have hentry := LedgerFiles.forall_putAt (t := (t.makeDirectories p.parent).1)
    (R := fun n e e' => n ≠ l → opened.isWritable = true ∨ n ≠ indexOf l → LedgerFiles.Loses e e')
    (fun _ _ _ _ => Or.inl rfl) (fun hne => absurd rfl hne) (fun _ _ => hlose.journal)
    (fun _ _ => hlose.log) (fun _ hx => hlose.index (hx.resolve_right fun hne => hne rfl)) m hm hindex
  rcases hentry with hsame | hnone
  · exact (hmake.file (hsame.symm.trans hfile)).resolve_left id
  · cases hnone.symm.trans hfile

theorem file_of_save {opened : Opened} {ledger : Ledger} (hlocation : opened.location = some l)
    {m : Location} {content : FileContent} (hm : m ≠ l)
    (hfile : (save t opened ledger).get? m = some (.file content)) :
    t.get? m = some (.file content) := by
  rw [save, hlocation] at hfile
  have hentry := LedgerFiles.forall_putAt (t := t)
    (s := (LedgerFiles.of t l).save opened ledger)
    (R := fun n e e' => n ≠ l → LedgerFiles.Loses e e') (fun _ _ _ => Or.inl rfl)
    (fun hne => absurd rfl hne) (fun _ => LedgerFiles.loses_journal_save _ opened ledger)
    (fun _ => Or.inl rfl) (fun _ => Or.inl rfl) m hm
  rcases hentry with hsame | hnone
  · exact hsame.symm.trans hfile
  · cases hnone.symm.trans hfile

/-- A call on a path leaves no new file but that of its ledger, and perhaps an index. -/
theorem Opens.file_perform (h : Opens w.files p l writable) (c : Call) {m : Location}
    {content : FileContent} (hm : m ≠ l) (hindex : writable = true ∨ m ≠ indexOf l)
    (hfile : (perform w p c).1.files.get? m = some (.file content)) :
    w.files.get? m = some (.file content) := by
  rcases files_perform w p c with hfiles | hfiles | ⟨opened, ledger, hopened, hfiles⟩
  · rw [hfiles] at hfile
    exact hfile
  · rw [hfiles] at hfile
    exact h.file_openLedger hm hindex hfile
  · rw [hfiles] at hfile
    have hlocation := (openLedger_ok hopened).1.trans h.database?_eq
    exact h.file_openLedger hm hindex (file_of_save hlocation hm hfile)

/-- A call on a path leaves it usable. -/
theorem Leads.perform_self (h : Leads w.files p l writable)
    (hindex : writable = true ∨ indexOf l ∉ passage w.files p) (c : Call) :
    Leads (History.perform w p c).1.files p l writable := by
  rcases h.opens.ready_perform c with hsame | hready
  · rw [hsame]
    exact h
  · refine h.of_grows (perform_grows w p c) (fun m hm content => ?_) (Or.inr ⟨hready, hindex⟩)
    refine h.opens.file_perform c (fun heq => h.apart (heq ▸ hm)) (hindex.imp_right fun hx heq => ?_)
    exact hx (heq ▸ hm)

/-- A call on a path that may change a ledger leaves every other such path to it usable. -/
theorem Leads.perform_same {p' : Path} (h : Leads w.files p l true) (h' : Leads w.files p' l true)
    (c : Call) : Leads (History.perform w p' c).1.files p l true := by
  rcases h'.opens.ready_perform c with hsame | ⟨a', -, hready⟩
  · rw [hsame]
    exact h
  · refine h.of_grows (perform_grows w p' c) (fun m hm content => ?_) (Or.inr ⟨?_, Or.inl rfl⟩)
    · exact h'.opens.file_perform c (fun heq => h.apart (heq ▸ hm)) (Or.inl rfl)
    · obtain ⟨a, ha, hown⟩ := h.opens.ready
      exact ⟨a, ha, hready.of_access hown.access_ne⟩

/-- The file at a location, and what the storage knows beside it, is out of the way of a path, and the file is
not taken for one beside another. -/
structure Apart (t : FileTree) (p : Path) (l l' : Location) : Prop where
  passage : l ∉ passage t p
  sides : ∀ m ∈ History.sides l, m ∉ History.passage t p
  beside : l ∉ History.sides l'

instance (t : FileTree) (p : Path) (l l' : Location) : Decidable (Apart t p l l') :=
  decidable_of_iff (l ∉ passage t p ∧ (∀ m ∈ sides l, m ∉ passage t p) ∧ l ∉ sides l')
    ⟨fun h => ⟨h.1, h.2.1, h.2.2⟩, fun h => ⟨h.passage, h.sides, h.beside⟩⟩

/-- A call on a path leaves a path to another ledger usable when the files of each are out of the way of the
other. -/
theorem Leads.perform_other {p' : Path} {l' : Location} {writable' : Bool}
    (h : Leads w.files p l writable) (h' : Leads w.files p' l' writable') (hne : l ≠ l')
    (hl : Apart w.files p' l l') (hl' : Apart w.files p l' l) (c : Call) :
    Leads (History.perform w p' c).1.files p l writable := by
  have hgrows := perform_grows w p' c
  have hdatabase := h'.database?_eq
  have hroot : l ≠ [] := ne_root_of_opens h.opens
  have hroot' : l' ≠ [] := ne_root_of_opens h'.opens
  have hfileOf : ∀ {m}, IsFileOf w.files p' m → m = l' ∨ m ∈ sides l' := by
    intro m hm
    rcases hm with hm | hm
    · exact Or.inl (Option.some.inj (hm.symm.trans hdatabase))
    · rw [sidesOf_of_database hdatabase] at hm
      exact Or.inr hm
  refine h.of_grows hgrows (fun m hm content hfile => ?_) (Or.inl ?_)
  · refine (hgrows.file hfile).resolve_left fun hnew => ?_
    rcases hfileOf hnew with rfl | hside
    · exact hl'.passage hm
    · exact hl'.sides m hside hm
  · have hentry : ∀ m, m = l ∨ m ∈ sides l →
        (History.perform w p' c).1.files.get? m = w.files.get? m := by
      rintro m (rfl | hside)
      · exact hgrows.entry hl.passage fun hnew => (hfileOf hnew).elim hne hl.beside
      · refine hgrows.entry (hl.sides m hside) fun hnew => ?_
        rcases hfileOf hnew with rfl | hside'
        · exact hl'.beside hside
        · exact not_mem_sides_of_ne hroot hroot' hne hside hside'
    rw [LedgerFiles.of, LedgerFiles.of, hentry l (Or.inl rfl),
      hentry _ (Or.inr (mem_sides.2 (Or.inl rfl))), hentry _ (Or.inr (mem_sides.2 (Or.inr (Or.inl rfl)))),
      hentry _ (Or.inr (mem_sides.2 (Or.inr (Or.inr rfl))))]

theorem Opens.openWritable_ok (h : Opens t p l true) : ∃ opened, (openWritable t p).2 = .ok opened := by
  obtain ⟨opened, hopen, -, hwritable⟩ := h
  refine ⟨opened, ?_⟩
  rw [openWritable]
  rcases hledger : openLedger t p with ⟨files, x⟩
  rw [hledger] at hopen
  cases hopen
  exact congrArg Prod.snd (if_pos hwritable)

theorem Opens.insert_ok (h : Opens w.files p l true) (input result : String) :
    (insert w p input result).2 = .ok ((ledgerAt w.files l).next input result) ∧
      Replaces w.files p ((ledgerAt w.files l).insert input result)
        (insert w p input result).1.files := by
  obtain ⟨opened, hopened⟩ := h.openWritable_ok
  rcases insert_cases w p input result with ⟨fault, hfault, -⟩ | hok
  · rw [hopened] at hfault
    cases hfault
  · rw [h.ledgerOf_eq] at hok
    exact hok

theorem Opens.clear_ok (h : Opens w.files p l true) :
    (clear w p).2 = .ok (ledgerAt w.files l).size ∧
      Replaces w.files p (ledgerAt w.files l).clear (clear w p).1.files := by
  obtain ⟨opened, hopened⟩ := h.openWritable_ok
  rcases clear_cases w p with ⟨fault, hfault, -⟩ | hok
  · rw [hopened] at hfault
    cases hfault
  · rw [h.ledgerOf_eq] at hok
    exact hok

theorem Opens.recent_ok (h : Opens w.files p l writable) {limit : Int} (hone : 1 ≤ limit) :
    (recent w p limit).2 =
      if maxLimit < limit then .error .limitTooLarge
      else .ok ((ledgerAt w.files l).recent limit.toNat) := by
  have hledger := h.ledgerOf_eq
  obtain ⟨opened, hopen, -⟩ := h
  rcases (recent_cases w p limit).2 with ⟨hsmall, -⟩ | ⟨-, fault, hfault, -⟩ | ⟨-, opened, -, hok⟩
  · omega
  · rw [hopen] at hfault
    cases hfault
  · rw [hledger] at hok
    exact hok

theorem Leads.insert_ok (h : Leads w.files p l true) (input result : String) :
    (insert w p input result).2 = .ok ((ledgerAt w.files l).next input result) ∧
      Replaces w.files p ((ledgerAt w.files l).insert input result)
        (insert w p input result).1.files :=
  Opens.insert_ok h.opens input result

theorem Leads.clear_ok (h : Leads w.files p l true) :
    (clear w p).2 = .ok (ledgerAt w.files l).size ∧
      Replaces w.files p (ledgerAt w.files l).clear (clear w p).1.files :=
  Opens.clear_ok h.opens

theorem Leads.recent_ok (h : Leads w.files p l writable) {limit : Int} (hone : 1 ≤ limit) :
    (recent w p limit).2 =
      if maxLimit < limit then .error .limitTooLarge
      else .ok ((ledgerAt w.files l).recent limit.toNat) :=
  Opens.recent_ok h.opens hone

end History
end Reckoner
