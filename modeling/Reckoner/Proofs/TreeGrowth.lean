import Reckoner.Proofs.TreeFrame

/-! Trees that grow. Directories appear where nothing was, and where files may be written, something that is
no directory takes the place of something that is none (`Grows`). Making the directories of a path is growth,
and it succeeds when no name is too long and no file is in the way (`makeDirectories_ok_iff`); in a tree that
has grown no more of them is missing (`missing_mono`). -/

namespace Reckoner

open FileTree

/-- What may become of an entry, where directories may appear and where files may be written or taken away. -/
inductive FileTree.Change (directoryHere fileHere : Prop) : Option Entry → Option Entry → Prop
  | same (e : Option Entry) : Change directoryHere fileHere e e
  | directory {e : Option Entry} : directoryHere → (e = none ∨ (fileHere ∧ e ≠ some .directory)) →
      Change directoryHere fileHere e (some .directory)
  | file {e e' : Option Entry} : fileHere → e ≠ some .directory → e' ≠ some .directory →
      Change directoryHere fileHere e e'

/-- A tree has become another by directories that are new at some locations, and by files that were written
or taken away at others. -/
structure FileTree.Grows (directories files : Location → Prop) (t u : FileTree) : Prop where
  current : u.current = t.current
  change : ∀ m, Change (directories m) (files m) (t.get? m) (u.get? m)

namespace FileTree.Grows

variable {D F : Location → Prop} {t u v : FileTree} {l m : Location}

theorem refl (D F : Location → Prop) (t : FileTree) : Grows D F t t :=
  ⟨rfl, fun _ => .same _⟩

theorem trans (h : Grows D F t u) (k : Grows D F u v) : Grows D F t v := by
  refine ⟨k.current.trans h.current, fun m => ?_⟩
  have hm := h.change m
  have km := k.change m
  revert hm km
  generalize t.get? m = x, u.get? m = y, v.get? m = z
  rintro (_ | ⟨hdirectory, hfree⟩ | ⟨hfile, hfree, hfree'⟩) km
  · exact km
  · cases km with
    | same => exact .directory hdirectory hfree
    | directory _ _ => exact .directory hdirectory hfree
    | file _ hnot _ => exact absurd rfl hnot
  · cases km with
    | same => exact .file hfile hfree hfree'
    | directory hdirectory _ => exact .directory hdirectory (Or.inr ⟨hfile, hfree⟩)
    | file _ _ hfree'' => exact .file hfile hfree hfree''

theorem start (h : Grows D F t u) (a : Anchor) : u.start a = t.start a := by
  cases a with
  | here => exact h.current
  | root => rfl
  | doubleRoot => rfl

theorem directory (h : Grows D F t u) (hm : t.get? m = some .directory) :
    u.get? m = some .directory := by
  have hchange := h.change m
  rw [hm] at hchange
  generalize u.get? m = x at hchange ⊢
  cases hchange with
  | same => rfl
  | directory _ _ => rfl
  | file _ hfree _ => exact absurd rfl hfree

/-- A file is new, or it was there before. -/
theorem file (h : Grows D F t u) {content : FileContent} (hm : u.get? m = some (.file content)) :
    F m ∨ t.get? m = some (.file content) := by
  have hchange := h.change m
  rw [hm] at hchange
  generalize t.get? m = x at hchange ⊢
  cases hchange with
  | same => exact Or.inr rfl
  | file hfile _ _ => exact Or.inl hfile

/-- A directory is new, or it was there before. -/
theorem directory_cases (h : Grows D F t u) (hm : u.get? m = some .directory) :
    D m ∨ t.get? m = some .directory := by
  have hchange := h.change m
  rw [hm] at hchange
  generalize t.get? m = x at hchange ⊢
  cases hchange with
  | same => exact Or.inr rfl
  | directory hdirectory _ => exact Or.inl hdirectory
  | file _ _ hfree => exact absurd rfl hfree

theorem entry (h : Grows D F t u) (hD : ¬D m) (hF : ¬F m) : u.get? m = t.get? m := by
  have hchange := h.change m
  revert hchange
  generalize t.get? m = x, u.get? m = y
  rintro (_ | ⟨hdirectory, -⟩ | ⟨hfile, -, -⟩)
  · rfl
  · exact absurd hdirectory hD
  · exact absurd hfile hF

theorem put_directory (hD : D l) (hnone : t.get? l = none) : Grows D F t (t.put l .directory) := by
  refine ⟨rfl, fun m => ?_⟩
  by_cases hm : m = l
  · rw [hm, hnone, get?_put_self t _ (ne_root_of_none hnone)]
    exact .directory hD (Or.inl rfl)
  · rw [get?_put_of_ne t _ hm]
    exact .same _

theorem put_file (hF : F l) (hfree : t.get? l ≠ some .directory) (content : FileContent) :
    Grows D F t (t.put l (.file content)) := by
  refine ⟨rfl, fun m => ?_⟩
  by_cases hm : m = l
  · rw [hm, get?_put_self t _ (ne_root_of_free hfree)]
    exact .file hF hfree fun h => by cases h
  · rw [get?_put_of_ne t _ hm]
    exact .same _

theorem makeFrom {names : List String} (t : FileTree) (p : Path) (made : Bool) {l : Location}
    (passed : List String) (hway : ∀ m ∈ (way l names).tail, D m) :
    Grows D F t (t.makeFrom p made l passed names).1 := by
  induction names generalizing t made l passed with
  | nil => exact refl D F t
  | cons name names ih =>
      have hrest : ∀ m ∈ (way (step l name) names).tail, D m :=
        fun m hm => hway m (List.mem_of_mem_tail hm)
      simp only [FileTree.makeFrom]
      by_cases hlong : Path.isLongName name = true
      · rw [if_pos hlong]
        exact refl D F t
      · rw [if_neg hlong]
        cases hnext : t.get? (step l name) with
        | none =>
            have hput : Grows D F t (t.put (step l name) .directory) :=
              put_directory (hway _ (mem_way_self _ names)) hnext
            exact hput.trans (ih _ true (passed ++ [name]) hrest)
        | some e =>
            cases e with
            | directory => exact ih t made (passed ++ [name]) hrest
            | file content => exact refl D F t

theorem makeDirectories (t : FileTree) (p : Path)
    (hway : ∀ m ∈ (way (t.start p.anchor) p.names).tail, D m) :
    Grows D F t (t.makeDirectories p).1 := by
  rw [FileTree.makeDirectories]
  split_ifs with hlong
  · exact refl D F t
  · exact makeFrom t p false [] hway

end FileTree.Grows

namespace FileTree

variable {D F : Location → Prop} {t u : FileTree} {p : Path} {l : Location}

/-- The directories of names can be made when no name is too long and no file is in the way. -/
theorem makeFrom_ok_iff {names : List String} (t : FileTree) (p : Path) (made : Bool) (l : Location)
    (passed : List String) :
    (t.makeFrom p made l passed names).2 = .ok () ↔
      (∀ name ∈ names, Path.isLongName name = false) ∧
        ∀ m ∈ (way l names).tail, ∀ content, t.get? m ≠ some (.file content) := by
  induction names generalizing t made l passed with
  | nil => exact ⟨fun _ => ⟨fun _ h => (by cases h), fun _ h => by cases h⟩, fun _ => rfl⟩
  | cons name names ih =>
      rw [FileTree.makeFrom, tail_way_cons, List.forall_mem_cons, List.forall_mem_cons]
      by_cases hlong : Path.isLongName name = true
      · rw [if_pos hlong]
        exact ⟨fun h => (by cases h), fun h => absurd hlong (by rw [h.1.1]; exact Bool.false_ne_true)⟩
      rw [if_neg hlong]
      have hshort : Path.isLongName name = false := Bool.not_eq_true _ ▸ hlong
      cases hnext : t.get? (step l name) with
      | none =>
          have hsame : ∀ m content, (t.put (step l name) .directory).get? m = some (.file content) ↔
              t.get? m = some (.file content) := by
            intro m content
            by_cases hm : m = step l name
            · rw [hm, get?_put_self t _ (ne_root_of_none hnext), hnext]
              simp
            · rw [get?_put_of_ne t _ hm]
          simp only [ih, ne_eq, hsame, hshort, true_and]
          simp
      | some e =>
          cases e with
          | directory =>
              simp only [ih, hshort, true_and]
              simp
          | file content =>
              refine ⟨fun h => (by cases h), fun h => absurd rfl (h.2.1 content)⟩

theorem makeFrom_directory {names : List String} (t : FileTree) (p : Path) (made : Bool)
    (l : Location) (passed : List String) (h : (t.makeFrom p made l passed names).2 = .ok ()) :
    ∀ m ∈ (way l names).tail, (t.makeFrom p made l passed names).1.get? m = some .directory := by
  induction names generalizing t made l passed with
  | nil => exact fun m hm => by cases hm
  | cons name names ih =>
      have hkeep : ∀ (u : FileTree) (made : Bool) (passed : List String),
          u.get? (step l name) = some .directory →
          (u.makeFrom p made (step l name) passed names).1.get? (step l name) = some .directory :=
        fun u made passed hu =>
          (Grows.makeFrom (D := fun _ => True) (F := fun _ => False) u p made passed
            fun _ _ => trivial).directory hu
      rw [tail_way_cons, List.forall_mem_cons]
      rw [FileTree.makeFrom] at h ⊢
      by_cases hlong : Path.isLongName name = true
      · rw [if_pos hlong] at h
        cases h
      rw [if_neg hlong] at h ⊢
      cases hnext : t.get? (step l name) with
      | none =>
          simp only [hnext] at h
          exact ⟨hkeep _ _ _ (get?_put_self t _ (ne_root_of_none hnext)), ih _ _ _ _ h⟩
      | some e =>
          cases e with
          | directory =>
              simp only [hnext] at h
              exact ⟨hkeep _ _ _ hnext, ih _ _ _ _ h⟩
          | file content =>
              simp only [hnext] at h
              cases h

theorem makeDirectories_ok_iff (t : FileTree) (p : Path) :
    (t.makeDirectories p).2 = .ok () ↔
      p.isLong = false ∧ (∀ name ∈ p.names, Path.isLongName name = false) ∧
        ∀ m ∈ (way (t.start p.anchor) p.names).tail, ∀ content, t.get? m ≠ some (.file content) := by
  rw [makeDirectories]
  by_cases hlong : p.isLong = true
  · rw [if_pos hlong]
    exact ⟨fun h => (by cases h), fun h => absurd hlong (by rw [h.1]; exact Bool.false_ne_true)⟩
  · rw [if_neg hlong, makeFrom_ok_iff]
    exact ⟨fun h => ⟨Bool.not_eq_true _ ▸ hlong, h⟩, fun h => h.2⟩

/-- No more is missing where directories were added, if no file was in the way. -/
theorem missingFrom_mono {names : List String} {l : Location}
    (hdirectory : ∀ m, t.get? m = some .directory → u.get? m = some .directory)
    (hfree : ∀ m ∈ (way l names).tail, ∀ content, t.get? m ≠ some (.file content)) :
    u.missingFrom l names ≤ t.missingFrom l names := by
  induction names generalizing l with
  | nil => exact Nat.le_refl 0
  | cons name names ih =>
      have hle := missingFrom_le u l (name :: names)
      have hrest := ih (l := step l name) fun m hm => hfree m (List.mem_of_mem_tail hm)
      simp only [missingFrom] at hle ⊢
      split_ifs at hle ⊢
      · exact Nat.le_refl 0
      · cases hnext : t.get? (step l name) with
        | none => exact hle
        | some e =>
            cases e with
            | directory =>
                rw [hdirectory _ hnext]
                exact hrest
            | file content => exact absurd hnext (hfree _ (mem_way_self _ names) content)

theorem missing_mono (hstart : ∀ a, u.start a = t.start a)
    (hdirectory : ∀ m, t.get? m = some .directory → u.get? m = some .directory)
    (hfree : ∀ m ∈ (way (t.start p.anchor) p.names).tail, ∀ content, t.get? m ≠ some (.file content)) :
    u.missing p ≤ t.missing p := by
  rw [missing, missing, hstart]
  split_ifs
  · exact Nat.le_refl 0
  · exact missingFrom_mono hdirectory hfree

theorem makeDirectories_directory (h : (t.makeDirectories p).2 = .ok ()) :
    ∀ m ∈ (way (t.start p.anchor) p.names).tail, (t.makeDirectories p).1.get? m = some .directory := by
  rw [makeDirectories] at h ⊢
  by_cases hlong : p.isLong = true
  · rw [if_pos hlong] at h
    cases h
  · rw [if_neg hlong] at h ⊢
    exact makeFrom_directory t p false _ [] h

end FileTree

end Reckoner
