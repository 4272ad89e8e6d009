import Mathlib.Data.List.Forall2
import Mathlib.Data.List.TakeWhile
import Reckoner.Batch.Results

/-! Names of results files. The points in front of a name stay, and all that are behind become underscores,
of whatever name a batch can read: whether they open an extension of one, or stand within it. So the results
of sources in one directory are apart unless their names are alike but for points behind those in front that
stand as underscores in the other (`resultsPath_eq_iff`). -/

namespace Reckoner

namespace Batch

variable {p : Path} {kind : SourceKind}

/-- A path without a name has no extension. -/
theorem name_ne_of_kindOf? (h : kindOf? (extension p) = some kind) : p.name ≠ "" := by
  intro hname
  have hnone : kindOf? (extension p) = none := by
    rw [extension, Path.extensions, Path.lastExtension, hname]
    decide
  rw [h] at hnone
  cases hnone

/-- A name that ends in a point has no extension. -/
theorem getLast?_ne_of_kindOf? (h : kindOf? (extension p) = some kind) :
    p.name.toList.getLast? ≠ some '.' := by
  intro hpoint
  obtain ⟨init, hname⟩ := List.getLast?_eq_some_iff.1 hpoint
  have hlast : Path.lastExtensionOf p.name.toList = [] := by
    rw [hname, Path.lastExtensionOf, List.reverse_append]
    rfl
  have hnone : kindOf? (extension p) = none := by
    rw [extension, Path.extensions, Path.extensionsOf, if_pos hpoint, Path.lastExtension, hlast]
    decide
  rw [h] at hnone
  cases hnone

end Batch

namespace Path

/-- The parts of a text between points: what is before the first one, and the others, each with its point,
are the text. -/
theorem exists_splitOn_point (cs : List Char) :
    ∃ parts, cs.splitOn '.' = cs.takeWhile (· ≠ '.') :: parts ∧
      (parts.map ('.' :: ·)).flatten = cs.dropWhile (· ≠ '.') := by
  induction cs with
  | nil => exact ⟨[], rfl, rfl⟩
  | cons c cs ih =>
      obtain ⟨parts, hsplit, hflatten⟩ := ih
      rw [List.splitOn_cons_eq_if_modifyHead, hsplit]
      by_cases hpoint : c = '.'
      · subst hpoint
        refine ⟨cs.takeWhile (· ≠ '.') :: parts, rfl, ?_⟩
        rw [List.map_cons, List.flatten_cons, hflatten, List.cons_append, List.takeWhile_append_dropWhile]
        rfl
      · refine ⟨parts, ?_, ?_⟩
        · rw [if_neg (mt eq_of_beq hpoint), List.takeWhile_cons, if_pos (decide_eq_true hpoint)]
          rfl
        · rw [hflatten, List.dropWhile_cons, if_pos (decide_eq_true hpoint)]

/-- The extensions of a name are what it has from the first point on behind those in front. -/
theorem flatten_extensionsOf {cs : List Char} (h : cs.getLast? ≠ some '.') :
    (extensionsOf cs).flatten = (cs.dropWhile (· = '.')).dropWhile (· ≠ '.') := by
  obtain ⟨parts, hsplit, hflatten⟩ := exists_splitOn_point (cs.dropWhile (· = '.'))
  rw [extensionsOf, if_neg h, hsplit, ← hflatten]
  rfl

variable {p q : Path}

theorem withName_eq_withName_iff {name other : String} :
    p.withName name = q.withName other ↔ p.parent = q.parent ∧ name = other := by
  simp only [withName, parent, Path.mk.injEq, and_assoc]
  refine and_congr_right fun _ => ⟨fun h => ?_, fun h => ?_⟩
  · obtain ⟨hnames, hname⟩ := List.append_inj' h rfl
    exact ⟨hnames, List.singleton_inj.1 hname⟩
  · rw [h.1, h.2]

end Path

namespace Batch

/-- A character behind the points in front of a name, as it stands in the name of the results. -/
def folded (c : Char) : Char :=
  if c = '.' then '_' else c

theorem folded_ne_point (c : Char) : folded c ≠ '.' := by
  rw [folded]
  split_ifs with hpoint
  · decide
  · exact hpoint

theorem map_folded_takeWhile (cs : List Char) :
    (cs.takeWhile (· ≠ '.')).map folded = cs.takeWhile (· ≠ '.') := by
  have hother : ∀ c ∈ cs.takeWhile (· ≠ '.'), folded c = c := by
    intro c hc
    have hne := List.mem_takeWhile_imp hc
    exact if_neg (of_decide_eq_true hne)
  exact (List.map_congr_left hother).trans (List.map_id' _)

/-- What is before the first point stays as it is. -/
theorem map_folded_eq (cs : List Char) :
    cs.map folded = cs.takeWhile (· ≠ '.') ++ (cs.dropWhile (· ≠ '.')).map folded := by
  conv_lhs => rw [← List.takeWhile_append_dropWhile (p := (· ≠ '.')) (l := cs)]
  rw [List.map_append, map_folded_takeWhile]

theorem take_length_sub {front back cs : List Char} (h : front ++ back = cs) :
    cs.take (cs.length - back.length) = front := by
  rw [← h, List.length_append, Nat.add_sub_cancel]
  exact List.take_left

variable {p q : Path} {kind kind' : SourceKind}

/-- The name of the results of a source that is read. -/
theorem resultsName_eq (h : p.name.toList.getLast? ≠ some '.') :
    resultsName p = String.ofList (p.name.toList.takeWhile (· = '.') ++
      (p.name.toList.dropWhile (· = '.')).map folded) ++ "_results.txt" := by
  have hextensions : (p.extensions.map String.toList).flatten =
      (p.name.toList.dropWhile (· = '.')).dropWhile (· ≠ '.') := by
    rw [← Path.flatten_extensionsOf h, Path.extensions, List.map_map]
    exact congrArg List.flatten (List.map_id'' (fun _ => String.toList_ofList) _)
  have hname : p.name.toList.takeWhile (· = '.') ++ (p.name.toList.dropWhile (· = '.')).takeWhile (· ≠ '.') ++
      (p.name.toList.dropWhile (· = '.')).dropWhile (· ≠ '.') = p.name.toList := by
    rw [List.append_assoc, List.takeWhile_append_dropWhile, List.takeWhile_append_dropWhile]
  simp only [resultsName, hextensions]
  rw [take_length_sub hname, map_folded_eq, List.append_assoc]
  rfl

/-- Whether one of two characters is the other, or they are a point and an underscore. -/
def Merged (c d : Char) : Prop :=
  c = d ∨ c = '.' ∧ d = '_' ∨ c = '_' ∧ d = '.'

/-- Names that differ only in points, behind those in front, that are underscores in the other. -/
structure Alike (name other : String) : Prop where
  points : name.toList.takeWhile (· = '.') = other.toList.takeWhile (· = '.')
  rest : List.Forall₂ Merged (name.toList.dropWhile (· = '.')) (other.toList.dropWhile (· = '.'))

theorem folded_eq_folded_iff {c d : Char} : folded c = folded d ↔ Merged c d := by
  by_cases hc : c = '.'
  · by_cases hd : d = '.'
    · simp [folded, Merged, hc, hd]
    · simp [folded, Merged, hc, hd, eq_comm]
  · by_cases hd : d = '.'
    · simp [folded, Merged, hc, hd]
    · simp [folded, Merged, hc, hd]

theorem map_folded_eq_iff {cs ds : List Char} :
    cs.map folded = ds.map folded ↔ List.Forall₂ Merged cs ds := by
  rw [← List.forall₂_eq_eq_eq, List.forall₂_map_left_iff, List.forall₂_map_right_iff]
  simp only [folded_eq_folded_iff]

/-- The points in front are told apart from what is folded, which has none. -/
theorem takeWhile_append_folded (cs ds : List Char) :
    (cs.takeWhile (· = '.') ++ ds.map folded).takeWhile (· = '.') = cs.takeWhile (· = '.') := by
  have hnone : (ds.map folded).takeWhile (· = '.') = [] := by
    cases ds with
    | nil => rfl
    | cons d ds => rw [List.map_cons, List.takeWhile_cons, if_neg (mt of_decide_eq_true (folded_ne_point d))]
  have hpoints : ∀ c ∈ cs.takeWhile (· = '.'), c = '.' := by
    intro c hc
    have hpoint := List.mem_takeWhile_imp hc
    exact of_decide_eq_true hpoint
  rw [List.takeWhile_append_of_pos fun c hc => decide_eq_true (hpoints c hc), hnone, List.append_nil]

theorem resultsName_eq_resultsName_iff (hp : p.name.toList.getLast? ≠ some '.')
    (hq : q.name.toList.getLast? ≠ some '.') : resultsName p = resultsName q ↔ Alike p.name q.name := by
  rw [resultsName_eq hp, resultsName_eq hq, String.append_left_inj, String.ofList_inj]
  constructor
  · intro h
    have hfront := congrArg (List.takeWhile (· = '.')) h
    rw [takeWhile_append_folded, takeWhile_append_folded] at hfront
    rw [hfront] at h
    exact ⟨hfront, map_folded_eq_iff.1 (List.append_cancel_left h)⟩
  · intro h
    rw [h.points, map_folded_eq_iff.2 h.rest]

/-- The results of two sources that are read go to one file exactly if the sources are in one directory and
their names are alike. -/
theorem resultsPath_eq_iff (hp : kindOf? (extension p) = some kind)
    (hq : kindOf? (extension q) = some kind') :
    ∃ results results', resultsPath p = .ok results ∧ resultsPath q = .ok results' ∧
      (results = results' ↔ p.parent = q.parent ∧ Alike p.name q.name) := by
  refine ⟨_, _, if_neg (name_ne_of_kindOf? hp), if_neg (name_ne_of_kindOf? hq), ?_⟩
  rw [Path.withName_eq_withName_iff,
    resultsName_eq_resultsName_iff (getLast?_ne_of_kindOf? hp) (getLast?_ne_of_kindOf? hq)]

/-- A point in front is not an underscore, though an inner one is. -/
theorem resultsPath_ne_of_point_in_front :
    kindOf? (extension (Path.ofString ".a.txt")) = some .text ∧
      kindOf? (extension (Path.ofString "_a.txt")) = some .text ∧
      resultsPath (Path.ofString ".a.txt") ≠ resultsPath (Path.ofString "_a.txt") := by
  have hp : kindOf? (extension (Path.ofString ".a.txt")) = some .text := by decide +kernel
  have hq : kindOf? (extension (Path.ofString "_a.txt")) = some .text := by decide +kernel
  refine ⟨hp, hq, ?_⟩
  obtain ⟨results, results', hresults, hresults', heq⟩ := resultsPath_eq_iff hp hq
  rw [hresults, hresults', Ne, Except.ok.injEq, heq]
  intro h
  exact absurd h.2.points (by decide +kernel)

/-- Sources whose names differ in an inner point have their results in one file. -/
theorem resultsPath_shared :
    let source := Path.ofString "a.b.txt"
    let other := Path.ofString "a_b.txt"
    kindOf? (extension source) = some .text ∧ kindOf? (extension other) = some .text ∧
      source.parent = other.parent ∧ source.name ≠ other.name ∧
      resultsPath source = resultsPath other := by
  decide +kernel

end Batch

end Reckoner
