import Reckoner.Proofs.LedgerFiles
import Reckoner.Proofs.ResultsNames
import Reckoner.Proofs.TreeFrame

/-! Where a batch has its files. The results are beside the source, under a longer name that tells them from
it (`exists_resultsPath`, `location_ne_of_resultsPath`). Neither the results nor a source that can be read is
ever in the place of a file that the storage knows beside a ledger, since their names end otherwise
(`not_mem_sides_of_resultsPath`, `not_mem_sides_of_kindOf?`). -/

namespace Reckoner

open FileTree History

namespace Path

theorem names_eq_append {p : Path} (h : p.name ≠ "") : p.names = p.parent.names ++ [p.name] := by
  rw [name, List.getLastD_eq_getLast?] at h ⊢
  cases hlast : p.names.getLast? with
  | none =>
      rw [hlast] at h
      exact absurd rfl h
  | some last => exact (List.dropLast_append_getLast? last hlast).symm

end Path

namespace Batch

variable {source results : Path}

theorem length_resultsName (p : Path) : p.name.toList.length < (resultsName p).toList.length := by
  simp only [resultsName, String.toList_append, String.toList_ofList, List.length_append,
    List.length_take, List.length_map]
  have hmark : "_results.txt".toList.length = 12 := rfl
  omega

theorem resultsName_ne_name (p : Path) : resultsName p ≠ p.name := by
  intro h
  have hlength := length_resultsName p
  rw [h] at hlength
  exact Nat.lt_irrefl _ hlength

theorem resultsName_ne_parent (p : Path) : resultsName p ≠ ".." := by
  intro h
  have hmark : "_results.txt".toList <:+ (resultsName p).toList := by
    rw [resultsName, String.toList_append]
    exact List.suffix_append _ _
  rw [h] at hmark
  exact absurd hmark.length_le (by decide)

theorem eq_of_resultsPath (h : resultsPath source = .ok results) :
    source.name ≠ "" ∧ results = source.withName (resultsName source) := by
  rw [resultsPath] at h
  split_ifs at h with hname
  cases h
  exact ⟨hname, rfl⟩

/-- The results of a source are beside it, and not in its place. -/
theorem exists_resultsPath (hname : source.name ≠ "") :
    ∃ results, resultsPath source = .ok results ∧ results.parent = source.parent ∧ results ≠ source := by
  refine ⟨source.withName (resultsName source), ?_, ?_, ?_⟩
  · rw [resultsPath, if_neg hname]
  · rw [Path.parent, Path.parent, Path.withName, List.dropLast_concat]
  · intro h
    have hnames := congrArg Path.name h
    rw [Path.name, Path.withName, List.getLastD_concat] at hnames
    exact resultsName_ne_name source hnames

theorem location_of_resultsPath {t : FileTree} {r : Location}
    (hresults : resultsPath source = .ok results) (hr : t.locate results = .ok r) :
    r = destination (t.start source.anchor) source.parent.names ++ [resultsName source] := by
  obtain ⟨-, rfl⟩ := eq_of_resultsPath hresults
  rw [eq_destination_of_locate hr, Path.withName, destination, List.foldl_concat, step,
    if_neg (resultsName_ne_parent source)]
  rfl

theorem location_ne_of_resultsPath {t : FileTree} {l r : Location} (hl : t.locate source = .ok l)
    (hresults : resultsPath source = .ok results) (hr : t.locate results = .ok r) : l ≠ r := by
  have hname := (eq_of_resultsPath hresults).1
  let directory := destination (t.start source.anchor) source.parent.names
  have hl' : l = step directory source.name := by
    rw [eq_destination_of_locate hl, Path.names_eq_append hname, destination, List.foldl_concat]
    rfl
  have hr' : r = directory ++ [resultsName source] := location_of_resultsPath hresults hr
  rw [hl', hr', step]
  -- the source may be the parent of the directory, when its name is that of a step up
  split_ifs with hparent
  · intro h
    have hlength := congrArg List.length h
    rw [List.length_dropLast, List.length_append, List.length_singleton] at hlength
    omega
  · intro h
    exact resultsName_ne_name source (List.singleton_inj.1 (List.append_cancel_left h)).symm

/-- A name that ends neither in "l" nor in "m" is not that of a file beside a ledger. -/
theorem not_mem_sides_of_getLast? {r l : Location} {c : Char}
    (hlast : (r.getLastD "").toList.getLast? = some c) (hl : c ≠ 'l') (hm : c ≠ 'm') : r ∉ sides l := by
  have hends : ∀ (suffix : String) (d : Char), suffix.toList.getLast? = some d → r = beside l suffix →
      d = c := by
    intro suffix d hd heq
    rw [heq, name_beside, String.toList_append, List.getLast?_append, hd, Option.some_or] at hlast
    exact Option.some.inj hlast
  intro hside
  rcases mem_sides.1 hside with h | h | h
  · exact hl (hends "-journal" 'l' (by decide) h).symm
  · exact hl (hends "-wal" 'l' (by decide) h).symm
  · exact hm (hends "-shm" 'm' (by decide) h).symm

theorem not_mem_sides_of_resultsPath {t : FileTree} {r : Location}
    (hresults : resultsPath source = .ok results) (hr : t.locate results = .ok r) (l : Location) :
    r ∉ sides l := by
  have hmark : "_results.txt".toList.getLast? = some 't' := by decide
  refine not_mem_sides_of_getLast? (c := 't') ?_ (by decide) (by decide)
  rw [location_of_resultsPath hresults hr, List.getLastD_concat, resultsName, String.toList_append,
    List.getLast?_append, hmark, Option.some_or]

/-- The last extension of a name is at its end. -/
theorem lastExtensionOf_suffix (cs : List Char) : Path.lastExtensionOf cs <:+ cs := by
  rw [Path.lastExtensionOf]
  split_ifs with hnone
  · exact List.nil_suffix
  · simp only [Bool.or_eq_true, List.isEmpty_reverse, decide_eq_true_eq, not_or, List.length_reverse,
      not_le] at hnone
    have hsplit := List.takeWhile_append_dropWhile (p := (· != '.')) (l := cs.reverse)
    cases hrest : cs.reverse.dropWhile (· != '.') with
    | nil =>
        rw [hrest, List.append_nil] at hsplit
        have hlength := congrArg List.length hsplit
        rw [List.length_reverse] at hlength
        omega
    | cons c rest =>
        have hpoint : c = '.' := by
          have hhead := List.head?_dropWhile_not (· != '.') cs.reverse
          rw [hrest] at hhead
          simpa using hhead
        rw [hrest, hpoint] at hsplit
        have hcs := congrArg List.reverse hsplit
        rw [List.reverse_reverse, List.reverse_append, List.reverse_cons, List.append_assoc] at hcs
        exact ⟨rest.reverse, hcs⟩

/-- The extension that tells the kind of a source is at the end of its name. -/
theorem extension_suffix {kind : SourceKind} (h : kindOf? (extension source) = some kind) :
    (extension source).toList <:+ source.name.toList := by
  have hpoint := getLast?_ne_of_kindOf? h
  rw [extension]
  split_ifs with htar
  · have hflatten := Path.flatten_extensionsOf hpoint
    have hname : (Path.extensionsOf source.name.toList).flatten <:+ source.name.toList := by
      rw [hflatten]
      exact (List.dropWhile_suffix _).trans (List.dropWhile_suffix _)
    have htwo : ((Path.extensionsOf source.name.toList).drop
        ((Path.extensionsOf source.name.toList).length - 2)) = [".tar".toList, ".xz".toList] := by
      rw [Path.extensions, List.length_map, ← List.map_drop] at htar
      have hmap := congrArg (List.map String.toList) htar
      rw [List.map_map] at hmap
      simpa [Function.comp_def] using hmap
    have hsplit := List.take_append_drop ((Path.extensionsOf source.name.toList).length - 2)
      (Path.extensionsOf source.name.toList)
    rw [htwo] at hsplit
    rw [← hsplit, List.flatten_append] at hname
    exact (List.suffix_append _ _).trans hname
  · rw [Path.lastExtension, String.toList_ofList]
    exact lastExtensionOf_suffix _

theorem exists_kindOf_of_readExpressions [FileFormats] {t : FileTree} {lines : List String}
    (h : readExpressions t source = .ok lines) : ∃ kind, kindOf? (extension source) = some kind := by
  rw [readExpressions] at h
  cases hkind : kindOf? (extension source) with
  | none =>
      rw [hkind] at h
      cases h
  | some kind => exact ⟨kind, rfl⟩

/-- A source of a kind that can be read is not in the place of a file beside a ledger. -/
theorem not_mem_sides_of_kindOf? {t : FileTree} {kind : SourceKind} {r : Location}
    (h : kindOf? (extension source) = some kind) (hr : t.locate source = .ok r) (l : Location) :
    r ∉ sides l := by
  have hname := name_ne_of_kindOf? h
  have hparent : source.name ≠ ".." := by
    intro hparent
    refine getLast?_ne_of_kindOf? h ?_
    rw [hparent]
    decide
  have hlast : r.getLastD "" = source.name := by
    rw [eq_destination_of_locate hr, Path.names_eq_append hname, destination, List.foldl_concat, step,
      if_neg hparent, List.getLastD_concat]
  obtain ⟨before, hends⟩ := extension_suffix h
  have hkinds : extension source = ".txt" ∨ extension source = ".zip" ∨ extension source = ".tar.xz" ∨
      extension source = ".7z" := by
    rw [kindOf?] at h
    split_ifs at h with htext
    · exact Or.inl htext
    · obtain ⟨format, hfind, -⟩ := Option.map_eq_some_iff.1 h
      have hformat := List.find?_some hfind
      rw [decide_eq_true_eq] at hformat
      rw [← hformat]
      cases format
      · exact Or.inr (Or.inl rfl)
      · exact Or.inr (Or.inr (Or.inl rfl))
      · exact Or.inr (Or.inr (Or.inr rfl))
  have hend : ∀ c, (extension source).toList.getLast? = some c →
      (r.getLastD "").toList.getLast? = some c := by
    intro c hc
    rw [hlast, ← hends, List.getLast?_append, hc, Option.some_or]
  rcases hkinds with hkind | hkind | hkind | hkind
  · exact not_mem_sides_of_getLast? (hend 't' (by rw [hkind]; decide)) (by decide) (by decide)
  · exact not_mem_sides_of_getLast? (hend 'p' (by rw [hkind]; decide)) (by decide) (by decide)
  · exact not_mem_sides_of_getLast? (hend 'z' (by rw [hkind]; decide)) (by decide) (by decide)
  · exact not_mem_sides_of_getLast? (hend 'z' (by rw [hkind]; decide)) (by decide) (by decide)

end Batch
end Reckoner
