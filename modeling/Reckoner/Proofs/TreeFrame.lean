import Mathlib.Data.List.Basic
import Reckoner.Files.Tree

/-! What following a path reads and changes. Names lead through locations, their way; making the
directories of a path looks at no other entry, and only adds to the tree. So two trees that agree along
the way give the same answer and agree afterwards (`AgreeOn`), whatever lies off the way is left as it
was, and every directory stays one (`Extends`). -/

namespace Reckoner
namespace FileTree

/-- The locations that names lead through, the one that they start from included. -/
def way (l : Location) : List String → List Location
  | [] => [l]
  | name :: names => l :: way (step l name) names

/-- The location that names lead to. -/
def destination (l : Location) (names : List String) : Location :=
  names.foldl step l

theorem mem_way_self (l : Location) (names : List String) : l ∈ way l names := by
  cases names <;> exact List.mem_cons_self

theorem step_mem_way (l : Location) (name : String) (names : List String) :
    step l name ∈ way l (name :: names) :=
  List.mem_cons_of_mem _ (mem_way_self _ names)

theorem tail_way_cons (l : Location) (name : String) (names : List String) :
    (way l (name :: names)).tail = step l name :: (way (step l name) names).tail := by
  cases names <;> rfl

theorem destination_mem_way (l : Location) (names : List String) :
    destination l names ∈ way l names := by
  induction names generalizing l with
  | nil => exact List.mem_cons_self
  | cons name names ih => exact List.mem_cons_of_mem _ (ih (step l name))

/-- Names that never step to a parent lead from above to below. -/
theorem prefix_of_mem_way {names : List String} (h : ".." ∉ names) {l m : Location}
    (hm : m ∈ way l names) : m <+: destination l names := by
  induction names generalizing l m with
  | nil =>
      rw [List.mem_singleton.1 hm]
      exact List.prefix_rfl
  | cons name names ih =>
      rw [List.mem_cons, not_or] at h
      have hstep : step l name = l ++ [name] := if_neg (Ne.symm h.1)
      rcases List.mem_cons.1 hm with rfl | hm
      · have hnext := ih h.2 (mem_way_self (step m name) names)
        rw [hstep] at hnext
        rw [destination, List.foldl_cons, hstep]
        exact (List.prefix_append m [name]).trans hnext
      · exact ih h.2 hm

theorem ne_root_of_free {t : FileTree} {l : Location} (h : t.get? l ≠ some .directory) : l ≠ [] := by
  rintro rfl
  exact h rfl

theorem ne_root_of_none {t : FileTree} {l : Location} (h : t.get? l = none) : l ≠ [] := by
  rintro rfl
  cases h

theorem ne_directory_of_file {t : FileTree} {l : Location} {content : FileContent}
    (h : t.get? l = some (.file content)) : t.get? l ≠ some .directory := by
  rw [h]
  exact fun hfile => by cases hfile

theorem eq_destination_of_follow {t : FileTree} {p : Path} {names : List String} {l l' : Location}
    (h : t.follow p l names = .ok l') : l' = destination l names := by
  induction names generalizing l with
  | nil => exact (Except.ok.inj h).symm
  | cons name names ih =>
      rw [follow] at h
      split at h
      · split_ifs at h
        exact ih h
      · cases h
      · cases h

theorem eq_destination_of_locate {t : FileTree} {p : Path} {l : Location} (h : t.locate p = .ok l) :
    l = destination (t.start p.anchor) p.names := by
  rw [locate] at h
  split_ifs at h
  exact eq_destination_of_follow h

/-- A file is written where its path leads, and never over a directory. -/
theorem write_ok {t u : FileTree} {p : Path} {content : FileContent}
    (h : t.write p content = .ok u) : ∃ l, t.locate p = .ok l ∧ t.get? l ≠ some .directory := by
  rw [write] at h
  cases hlocate : t.locate p with
  | error fault =>
      rw [hlocate] at h
      cases h
  | ok l =>
      refine ⟨l, rfl, fun hdirectory => ?_⟩
      simp only [hlocate, hdirectory] at h
      cases h

variable {P : Location → Prop} {t u v : FileTree} {α : Type}

/-- Two trees have the same current directory, and the same entries wherever `P` holds. -/
structure AgreeOn (P : Location → Prop) (t u : FileTree) : Prop where
  current : t.current = u.current
  entry : ∀ m, P m → t.get? m = u.get? m

/-- The answers of two calls are the same, and the trees that they leave agree. -/
def AnswersAgree (P : Location → Prop) (x y : FileTree × α) : Prop :=
  x.2 = y.2 ∧ AgreeOn P x.1 y.1

namespace AgreeOn

theorem refl (P : Location → Prop) (t : FileTree) : AgreeOn P t t :=
  ⟨rfl, fun _ _ => rfl⟩

theorem start (h : AgreeOn P t u) (a : Anchor) : t.start a = u.start a := by
  cases a with
  | here => exact h.current
  | root => rfl
  | doubleRoot => rfl

theorem set (h : AgreeOn P t u) (l : Location) (e : Option Entry) : AgreeOn P (t.set l e) (u.set l e) := by
  refine ⟨by cases e <;> exact h.current, fun m hm => ?_⟩
  by_cases hml : m = l
  · subst hml
    by_cases hroot : m = []
    · rw [hroot]
      rfl
    · rw [get?_set_self t e hroot, get?_set_self u e hroot]
  · rw [get?_set_of_ne t e hml, get?_set_of_ne u e hml]
    exact h.entry m hm

theorem put (h : AgreeOn P t u) (l : Location) (e : Entry) : AgreeOn P (t.put l e) (u.put l e) :=
  h.set l (some e)

theorem put_right (h : AgreeOn P t u) {l : Location} (e : Entry) (hl : ¬P l) :
    AgreeOn P t (u.put l e) := by
  refine ⟨h.current, fun m hm => ?_⟩
  have hml : m ≠ l := by
    rintro rfl
    exact hl hm
  rw [get?_put_of_ne u e hml]
  exact h.entry m hm

theorem symm (h : AgreeOn P t u) : AgreeOn P u t :=
  ⟨h.current.symm, fun m hm => (h.entry m hm).symm⟩

theorem answers {x : α} (h : AgreeOn P t u) : AnswersAgree P (t, x) (u, x) :=
  ⟨rfl, h⟩

theorem makeFrom {names : List String} {l : Location} (h : AgreeOn P t u) (p : Path) (made : Bool)
    (passed : List String) (hway : ∀ m ∈ way l names, P m) :
    AnswersAgree P (t.makeFrom p made l passed names) (u.makeFrom p made l passed names) := by
  induction names generalizing t u made l passed with
  | nil => exact h.answers
  | cons name names ih =>
      have hnext : t.get? (step l name) = u.get? (step l name) :=
        h.entry _ (hway _ (step_mem_way l name names))
      have hrest : ∀ m ∈ way (step l name) names, P m :=
        fun m hm => hway m (List.mem_cons_of_mem _ hm)
      simp only [FileTree.makeFrom, hnext]
      by_cases hlong : Path.isLongName name = true
      · rw [if_pos hlong, if_pos hlong]
        exact h.answers
      · rw [if_neg hlong, if_neg hlong]
        cases u.get? (step l name) with
        | none => exact ih (h.put _ _) true (passed ++ [name]) hrest
        | some e =>
            cases e with
            | directory => exact ih h made (passed ++ [name]) hrest
            | file content => exact h.answers

theorem makeDirectories (h : AgreeOn P t u) (p : Path)
    (hway : ∀ m ∈ way (t.start p.anchor) p.names, P m) :
    AnswersAgree P (t.makeDirectories p) (u.makeDirectories p) := by
  rw [FileTree.makeDirectories, FileTree.makeDirectories, ← h.start p.anchor]
  by_cases hlong : p.isLong = true
  · rw [if_pos hlong, if_pos hlong]
    exact h.answers
  · rw [if_neg hlong, if_neg hlong]
    exact h.makeFrom p false [] hway

theorem missingFrom {names : List String} {l : Location} (h : AgreeOn P t u)
    (hway : ∀ m ∈ way l names, P m) : t.missingFrom l names = u.missingFrom l names := by
  induction names generalizing l with
  | nil => rfl
  | cons name names ih =>
      have hnext : t.get? (step l name) = u.get? (step l name) :=
        h.entry _ (hway _ (step_mem_way l name names))
      have hrest := ih fun m hm => hway m (List.mem_cons_of_mem _ hm)
      simp only [FileTree.missingFrom, hnext, hrest]

theorem missing (h : AgreeOn P t u) (p : Path) (hway : ∀ m ∈ way (t.start p.anchor) p.names, P m) :
    t.missing p = u.missing p := by
  rw [FileTree.missing, FileTree.missing, ← h.start p.anchor, h.missingFrom hway]

end AgreeOn

theorem missingFrom_le (t : FileTree) (l : Location) (names : List String) :
    t.missingFrom l names ≤ names.length := by
  induction names generalizing l with
  | nil => exact Nat.le_refl 0
  | cons name names ih =>
      simp only [missingFrom]
      split_ifs
      · exact Nat.zero_le _
      · split
        · exact Nat.le_trans (ih _) (Nat.le_succ _)
        · exact Nat.zero_le _
        · exact Nat.le_refl _

theorem missing_le (t : FileTree) (p : Path) : t.missing p ≤ p.names.length := by
  rw [missing]
  split_ifs
  · exact Nat.zero_le _
  · exact missingFrom_le t _ _

/-- A tree has become another by changes at some locations, and no directory was lost. -/
structure Extends (s : List Location) (t u : FileTree) : Prop where
  current : u.current = t.current
  entry : ∀ m, m ∉ s → u.get? m = t.get? m
  directory : ∀ m, t.get? m = some .directory → u.get? m = some .directory

namespace Extends

variable {s : List Location}

theorem refl (s : List Location) (t : FileTree) : Extends s t t :=
  ⟨rfl, fun _ _ => rfl, fun _ h => h⟩

theorem trans (h : Extends s t u) (k : Extends s u v) : Extends s t v where
  current := k.current.trans h.current
  entry m hm := (k.entry m hm).trans (h.entry m hm)
  directory m hm := k.directory m (h.directory m hm)

theorem put {l : Location} (t : FileTree) (e : Entry) (hl : l ∈ s)
    (hfree : t.get? l ≠ some .directory) : Extends s t (t.put l e) := by
  refine ⟨rfl, fun m hm => ?_, fun m hm => ?_⟩
  · have hml : m ≠ l := by
      rintro rfl
      exact hm hl
    exact get?_put_of_ne t e hml
  · have hml : m ≠ l := by
      rintro rfl
      exact hfree hm
    rw [get?_put_of_ne t e hml]
    exact hm

theorem makeFrom {names : List String} {l : Location} (t : FileTree) (p : Path) (made : Bool)
    (passed : List String) (hway : ∀ m ∈ way l names, m ∈ s) :
    Extends s t (t.makeFrom p made l passed names).1 := by
  induction names generalizing t made l passed with
  | nil => exact refl s t
  | cons name names ih =>
      have hrest : ∀ m ∈ way (step l name) names, m ∈ s :=
        fun m hm => hway m (List.mem_cons_of_mem _ hm)
      simp only [FileTree.makeFrom]
      by_cases hlong : Path.isLongName name = true
      · rw [if_pos hlong]
        exact refl s t
      · rw [if_neg hlong]
        cases hnext : t.get? (step l name) with
        | none =>
            have hput : Extends s t (t.put (step l name) .directory) := by
              refine put t _ (hrest _ (mem_way_self _ names)) ?_
              rw [hnext]
              exact Option.some_ne_none _ |>.symm
            exact hput.trans (ih _ true (passed ++ [name]) hrest)
        | some e =>
            cases e with
            | directory => exact ih t made (passed ++ [name]) hrest
            | file content => exact refl s t

theorem makeDirectories (t : FileTree) (p : Path)
    (hway : ∀ m ∈ way (t.start p.anchor) p.names, m ∈ s) :
    Extends s t (t.makeDirectories p).1 := by
  rw [FileTree.makeDirectories]
  by_cases hlong : p.isLong = true
  · rw [if_pos hlong]
    exact refl s t
  · rw [if_neg hlong]
    exact makeFrom t p false [] hway

theorem start (h : Extends s t u) (a : Anchor) : u.start a = t.start a := by
  cases a with
  | here => exact h.current
  | root => rfl
  | doubleRoot => rfl

theorem follow (h : Extends s t u) {p : Path} {names : List String} {l l' : Location}
    (hfollow : t.follow p l names = .ok l') : u.follow p l names = .ok l' := by
  induction names generalizing l with
  | nil => exact hfollow
  | cons name names ih =>
      rw [FileTree.follow] at hfollow ⊢
      cases hl : t.get? l with
      | none =>
          rw [hl] at hfollow
          cases hfollow
      | some e =>
          rw [hl] at hfollow
          cases e with
          | file content => cases hfollow
          | directory =>
              rw [h.directory l hl]
              by_cases hlong : Path.isLongName name = true
              · simp only [if_pos hlong] at hfollow
                cases hfollow
              · simp only [if_neg hlong] at hfollow ⊢
                exact ih hfollow

/-- A path that leads somewhere leads there still. -/
theorem locate (h : Extends s t u) {p : Path} {l : Location} (hlocate : t.locate p = .ok l) :
    u.locate p = .ok l := by
  rw [FileTree.locate] at hlocate ⊢
  rw [h.start p.anchor]
  by_cases hlong : p.isLong = true
  · rw [if_pos hlong] at hlocate
    cases hlocate
  · rw [if_neg hlong] at hlocate ⊢
    exact h.follow hlocate

end Extends

theorem read_eq_of_locate {p : Path} {l : Location} {content : FileContent} (hl : t.locate p = .ok l)
    (hentry : t.get? l = some (.file content)) : t.read p = .ok content := by
  simp only [read, hl, hentry]

theorem exists_entry_of_read {p : Path} {content : FileContent} (h : t.read p = .ok content) :
    ∃ l, t.locate p = .ok l ∧ t.get? l = some (.file content) := by
  rw [read] at h
  cases hl : t.locate p with
  | error fault =>
      rw [hl] at h
      cases h
  | ok l =>
      refine ⟨l, rfl, ?_⟩
      simp only [hl] at h
      split at h
      · next hentry =>
        cases h
        exact hentry
      · cases h
      · cases h

/-- A file that can be read can be written, and then it holds what was written. -/
theorem exists_write_of_read {p : Path} {old : FileContent} (h : t.read p = .ok old)
    (content : FileContent) : ∃ u, t.write p content = .ok u ∧ u.read p = .ok content := by
  obtain ⟨l, hl, hentry⟩ := exists_entry_of_read h
  have hroot : l ≠ [] := by
    rintro rfl
    cases hentry
  have hextends := Extends.put t (.file content) (List.mem_singleton_self l)
    (ne_directory_of_file hentry)
  refine ⟨t.put l (.file content), ?_, ?_⟩
  · simp only [write, hl, hentry]
  · exact read_eq_of_locate (hextends.locate hl) (get?_put_self t _ hroot)

end FileTree
end Reckoner
