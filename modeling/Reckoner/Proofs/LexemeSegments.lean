import Mathlib.Data.List.TakeWhile
import Reckoner.Proofs.InfixArrangement

/-! What the scan of a text keeps and what it passes over, for any characters in any order. A text falls into
segments, each a lexeme or a character that is passed over (`Divided`), and its characters are marked by
which of the two they belong to. Digits and symbols are always kept, a point only where it joins a whole
part to the fraction of a number, and all else never. So the lexemes hold the digits and symbols of the
text, in order and without loss, and only a text without any has no tokens (`tokens_conserve`). -/

namespace Reckoner

open Text (isDigit isDigit_point)

/-- A part of a text as it is scanned: a lexeme, or a character that is passed over. -/
inductive Segment where
  | lexeme (l : Lexeme)
  | skipped (c : Char)

namespace Segment

def text : Segment → List Char
  | lexeme l => l.text
  | skipped c => [c]

def lexeme? : Segment → Option Lexeme
  | lexeme l => some l
  | skipped _ => none

/-- Characters that are part of a lexeme. -/
def kept (cs : List Char) : List (Char × Bool) :=
  cs.map fun c => (c, true)

/-- The characters of a segment, each with whether it is part of a lexeme. -/
def marks : Segment → List (Char × Bool)
  | lexeme l => kept l.text
  | skipped c => [(c, false)]

theorem map_fst_kept (cs : List Char) : (kept cs).map Prod.fst = cs := by
  rw [kept, List.map_map]
  exact List.map_id cs

theorem filter_kept (cs : List Char) : (kept cs).filter Prod.snd = kept cs := by
  rw [List.filter_eq_self]
  intro mark hmark
  obtain ⟨c, -, rfl⟩ := List.mem_map.mp hmark
  rfl

theorem isDigit_of_mem_kept {cs : List Char} (h : ∀ c ∈ cs, isDigit c = true) :
    ∀ mark ∈ kept cs, isDigit mark.1 = true := by
  intro mark hmark
  obtain ⟨c, hc, rfl⟩ := List.mem_map.mp hmark
  exact h c hc

theorem map_fst_marks (segments : List Segment) :
    (segments.flatMap marks).map Prod.fst = segments.flatMap text := by
  rw [List.map_flatMap]
  congr 1
  funext segment
  cases segment with
  | lexeme l => exact map_fst_kept l.text
  | skipped c => rfl

/-- What is kept of a text is the text of its lexemes. -/
theorem filter_marks (segments : List Segment) :
    ((segments.flatMap marks).filter Prod.snd).map Prod.fst =
      (segments.filterMap lexeme?).flatMap Lexeme.text := by
  induction segments with
  | nil => rfl
  | cons segment segments ih =>
      rw [List.flatMap_cons, List.filter_append, List.map_append, ih]
      cases segment with
      | lexeme l =>
          rw [marks, filter_kept, map_fst_kept]
          rfl
      | skipped c => rfl

end Segment

namespace Lexeme

/-- The characters that are lexemes of their own. -/
def symbols : List Char :=
  ['+', '-', '*', '/', '(', ')']

/-- Whether a character is part of a lexeme wherever it stands. -/
def isSignificant (c : Char) : Bool :=
  isDigit c || symbols.contains c

/-- Digits, at least one. -/
structure IsRun (cs : List Char) : Prop where
  ne_nil : cs ≠ []
  isDigit_of_mem : ∀ c ∈ cs, isDigit c = true

/-- Whether no digit comes next. -/
def Stops (rest : List Char) : Prop :=
  ∀ c ∈ rest.head?, isDigit c = false

/-- How a text falls into segments, where numbers are as long as they can be. -/
inductive Divided : List Char → List Segment → Prop
  | nil : Divided [] []
  | whole {digits rest : List Char} {segments : List Segment} :
      IsRun digits → Stops rest → (∀ after, rest = '.' :: after → Stops after) →
      Divided rest segments → Divided (digits ++ rest) (.lexeme (.number digits none) :: segments)
  | fraction {digits places rest : List Char} {segments : List Segment} :
      IsRun digits → IsRun places → Stops rest → Divided rest segments →
      Divided (digits ++ '.' :: (places ++ rest))
        (.lexeme (.number digits (some places)) :: segments)
  | symbol {c : Char} {l : Lexeme} {cs : List Char} {segments : List Segment} :
      isDigit c = false → ofSymbol? c = some l → Divided cs segments →
      Divided (c :: cs) (.lexeme l :: segments)
  | skipped {c : Char} {cs : List Char} {segments : List Segment} :
      isDigit c = false → ofSymbol? c = none → Divided cs segments →
      Divided (c :: cs) (.skipped c :: segments)

theorem isRun_takeWhile {c : Char} (h : isDigit c = true) (cs : List Char) :
    IsRun ((c :: cs).takeWhile isDigit) := by
  refine ⟨?_, fun d hd => List.mem_takeWhile_imp hd⟩
  rw [List.takeWhile_cons, if_pos h]
  exact List.cons_ne_nil _ _

theorem stops_dropWhile (cs : List Char) : Stops (cs.dropWhile isDigit) := by
  intro c hc
  have hnot := List.head?_dropWhile_not isDigit cs
  rw [Option.mem_def.mp hc] at hnot
  exact hnot

theorem stops_of_fraction? {after : List Char} (h : fraction? ('.' :: after) = none) :
    Stops after := by
  cases after with
  | nil =>
      rintro c ⟨⟩
  | cons c after =>
      rintro d ⟨⟩
      cases hdigit : isDigit c with
      | false => rfl
      | true => simp [fraction?, hdigit] at h

/-- A fraction is a run of digits after a point, as long as it can be. -/
theorem eq_of_fraction? {cs places : List Char} (h : fraction? cs = some places) :
    IsRun places ∧ cs = '.' :: (places ++ (cs.drop 1).dropWhile isDigit) := by
  unfold fraction? at h
  split at h
  · next rest =>
      dsimp only at h
      split_ifs at h with hempty
      cases h
      refine ⟨⟨fun hnil => hempty (List.isEmpty_iff.mpr hnil), fun c hc => List.mem_takeWhile_imp hc⟩, ?_⟩
      rw [List.drop_one, List.tail_cons, List.takeWhile_append_dropWhile]
  · cases h

/-- The segments of a text, with its lexemes among them. -/
theorem exists_divided (cs : List Char) :
    ∃ segments, Divided cs segments ∧ segments.filterMap Segment.lexeme? = scan cs := by
  induction cs using scan.induct with
  | case1 => exact ⟨[], .nil, by rw [scan]; rfl⟩
  | case2 c cs hdigit _ ih =>
      obtain ⟨segments, hdivided, hlexemes⟩ := ih
      have hrun := isRun_takeWhile hdigit cs
      have hsplit : (c :: cs).takeWhile isDigit ++ (c :: cs).dropWhile isDigit = c :: cs :=
        List.takeWhile_append_dropWhile
      have hstops := stops_dropWhile (c :: cs)
      refine ⟨.lexeme (leadingNumber (c :: cs)) :: segments, ?_, ?_⟩
      · cases hfraction : fraction? ((c :: cs).dropWhile isDigit) with
        | none =>
            have hafter : afterNumber (c :: cs) = (c :: cs).dropWhile isDigit := by
              simp only [afterNumber, hfraction]
            rw [hafter] at hdivided
            rw [leadingNumber, hfraction]
            conv => arg 1; rw [← hsplit]
            refine .whole hrun hstops (fun after hafter => ?_) hdivided
            rw [hafter] at hfraction
            exact stops_of_fraction? hfraction
        | some places =>
            have hafter : afterNumber (c :: cs) =
                (((c :: cs).dropWhile isDigit).drop 1).dropWhile isDigit := by
              simp only [afterNumber, hfraction]
            obtain ⟨hplaces, hpoint⟩ := eq_of_fraction? hfraction
            rw [hafter] at hdivided
            rw [leadingNumber, hfraction]
            conv => arg 1; rw [← hsplit, hpoint]
            exact .fraction hrun hplaces (stops_dropWhile _) hdivided
      · rw [scan_digit hdigit, ← hlexemes]
        rfl
  | case3 c cs hdigit l hsymbol ih =>
      obtain ⟨segments, hdivided, hlexemes⟩ := ih
      refine ⟨.lexeme l :: segments, .symbol (Bool.eq_false_iff.mpr hdigit) hsymbol hdivided, ?_⟩
      rw [scan, dif_neg hdigit, hsymbol, ← hlexemes]
      rfl
  | case4 c cs hdigit hsymbol ih =>
      obtain ⟨segments, hdivided, hlexemes⟩ := ih
      refine ⟨.skipped c :: segments, .skipped (Bool.eq_false_iff.mpr hdigit) hsymbol hdivided, ?_⟩
      rw [scan, dif_neg hdigit, hsymbol, ← hlexemes]
      rfl

/-- A character that is a lexeme of its own is all of its text. -/
theorem text_of_symbol {c : Char} {l : Lexeme} (h : ofSymbol? c = some l) : l.text = [c] := by
  unfold ofSymbol? at h
  split_ifs at h with hopening hclosing
  · cases h
    rw [hopening, text]
  · cases h
    rw [hclosing, text]
  · obtain ⟨op, hop, rfl⟩ := Option.map_eq_some_iff.mp h
    rw [text, Operator.ofSymbol?_eq_some_iff.mp hop]

theorem isSome_ofSymbol? (c : Char) : (ofSymbol? c).isSome = symbols.contains c := by
  cases h : ofSymbol? c with
  | some l =>
      unfold ofSymbol? at h
      split_ifs at h with hopening hclosing
      · rw [hopening]
        rfl
      · rw [hclosing]
        rfl
      · obtain ⟨op, hop, rfl⟩ := Option.map_eq_some_iff.mp h
        rw [Operator.ofSymbol?_eq_some_iff.mp hop]
        cases op <;> rfl
  | none =>
      have hnot : c ∉ symbols := by
        intro hc
        simp only [symbols, List.mem_cons, List.not_mem_nil, or_false] at hc
        rcases hc with rfl | rfl | rfl | rfl | rfl | rfl <;> cases h
      rw [Option.isSome_none, eq_comm, ← Bool.not_eq_true, List.contains_iff_mem]
      exact hnot

theorem Divided.text_eq {cs : List Char} {segments : List Segment} (h : Divided cs segments) :
    segments.flatMap Segment.text = cs := by
  induction h with
  | nil => rfl
  | whole _ _ _ _ ih =>
      rw [List.flatMap_cons, ih]
      rfl
  | @fraction digits places rest _ _ _ _ _ ih =>
      rw [List.flatMap_cons, ih, Segment.text, text, List.append_assoc, List.cons_append]
  | symbol _ hsymbol _ ih =>
      rw [List.flatMap_cons, ih, Segment.text, text_of_symbol hsymbol, List.singleton_append]
  | skipped _ _ _ ih =>
      rw [List.flatMap_cons, ih]
      rfl

theorem isSignificant_of_isDigit {c : Char} (h : isDigit c = true) : isSignificant c = true := by
  rw [isSignificant, h, Bool.true_or]

theorem isSignificant_point : isSignificant '.' = false := by
  rw [isSignificant, isDigit_point, Bool.false_or]
  decide

theorem kept_isSignificant {digits : List Char} (h : IsRun digits) :
    ∀ mark ∈ Segment.kept digits, mark.2 = isSignificant mark.1 := by
  intro mark hmark
  obtain ⟨c, hc, rfl⟩ := List.mem_map.mp hmark
  exact (isSignificant_of_isDigit (h.isDigit_of_mem c hc)).symm

/-- Of all characters but the point those are kept that are digits or symbols. -/
theorem Divided.kept_eq {cs : List Char} {segments : List Segment} (h : Divided cs segments) :
    ∀ segment ∈ segments, ∀ mark ∈ segment.marks, mark.1 ≠ '.' →
      mark.2 = isSignificant mark.1 := by
  induction h with
  | nil =>
      rintro segment ⟨⟩
  | whole hdigits _ _ _ ih =>
      refine List.forall_mem_cons.mpr ⟨fun mark hmark _ => ?_, ih⟩
      exact kept_isSignificant hdigits mark hmark
  | fraction hdigits hplaces _ _ ih =>
      refine List.forall_mem_cons.mpr ⟨fun mark hmark hpoint => ?_, ih⟩
      rw [Segment.marks, text, Segment.kept, List.map_append, List.map_cons] at hmark
      rcases List.mem_append.mp hmark with hmark | hmark
      · exact kept_isSignificant hdigits mark hmark
      · rcases List.mem_cons.mp hmark with rfl | hmark
        · exact absurd rfl hpoint
        · exact kept_isSignificant hplaces mark hmark
  | symbol _ hsymbol _ ih =>
      refine List.forall_mem_cons.mpr ⟨fun mark hmark _ => ?_, ih⟩
      rw [Segment.marks, text_of_symbol hsymbol] at hmark
      rw [List.mem_singleton.mp hmark, isSignificant, ← isSome_ofSymbol?, hsymbol,
        Option.isSome_some, Bool.or_true]
  | skipped hdigit hsymbol _ ih =>
      refine List.forall_mem_cons.mpr ⟨fun mark hmark _ => ?_, ih⟩
      rw [List.mem_singleton.mp hmark, isSignificant, ← isSome_ofSymbol?, hsymbol, hdigit,
        Option.isSome_none, Bool.or_false]

/-- Every lexeme has a digit or a symbol. -/
theorem Divided.exists_significant {cs : List Char} {segments : List Segment} (h : Divided cs segments) :
    ∀ l, Segment.lexeme l ∈ segments → ∃ c ∈ l.text, isSignificant c = true := by
  have hdigit : ∀ {digits rest : List Char}, IsRun digits →
      ∃ c ∈ digits ++ rest, isSignificant c = true := by
    intro digits rest hdigits
    obtain ⟨c, hc⟩ := List.exists_mem_of_ne_nil digits hdigits.ne_nil
    exact ⟨c, List.mem_append_left rest hc, isSignificant_of_isDigit (hdigits.isDigit_of_mem c hc)⟩
  induction h with
  | nil =>
      rintro l ⟨⟩
  | @whole digits _ _ hdigits _ _ _ ih =>
      intro l hl
      rcases List.mem_cons.mp hl with heq | hl
      · cases heq
        rw [text, ← List.append_nil digits]
        exact hdigit hdigits
      · exact ih l hl
  | fraction hdigits _ _ _ ih =>
      intro l hl
      rcases List.mem_cons.mp hl with heq | hl
      · cases heq
        exact hdigit hdigits
      · exact ih l hl
  | @symbol c _ _ _ _ hsymbol _ ih =>
      intro l hl
      rcases List.mem_cons.mp hl with heq | hl
      · cases heq
        rw [text_of_symbol hsymbol]
        refine ⟨c, List.mem_singleton_self c, ?_⟩
        rw [isSignificant, ← isSome_ofSymbol?, hsymbol, Option.isSome_some, Bool.or_true]
      · exact ih l hl
  | skipped _ _ _ ih =>
      intro l hl
      rcases List.mem_cons.mp hl with heq | hl
      · cases heq
      · exact ih l hl

/-- Whether marked characters end in a whole part: in digits with no digit before them that are not the
fraction of a number, so that there is no point of a lexeme before them either. -/
def EndsInWhole (marked : List (Char × Bool)) : Prop :=
  ∃ earlier run, marked = earlier ++ run ∧ run ≠ [] ∧ (∀ mark ∈ run, isDigit mark.1 = true) ∧
    ∀ mark ∈ earlier.getLast?, isDigit mark.1 = false ∧ mark ≠ ('.', true)

def BeginsWithDigit (marked : List (Char × Bool)) : Prop :=
  ∃ mark ∈ marked.head?, isDigit mark.1 = true

/-- Whether those points are kept, and no others, that stand between a whole part and a digit. -/
def PointsJoin (marked : List (Char × Bool)) : Prop :=
  ∀ before kept after, marked = before ++ ('.', kept) :: after →
    (kept = true ↔ EndsInWhole before ∧ BeginsWithDigit after)

variable {front before marked : List (Char × Bool)}

theorem not_endsInWhole_nil : ¬EndsInWhole [] := by
  rintro ⟨earlier, run, hnil, hne, -, -⟩
  exact hne (List.append_eq_nil_iff.mp hnil.symm).2

theorem endsInWhole_kept {digits : List Char} (h : IsRun digits) :
    EndsInWhole (Segment.kept digits) := by
  refine ⟨[], Segment.kept digits, rfl, ?_, Segment.isDigit_of_mem_kept h.isDigit_of_mem, ?_⟩
  · exact fun hnil => h.ne_nil (List.map_eq_nil_iff.mp hnil)
  · rintro mark ⟨⟩

/-- What stands in front of a place where no number goes on makes no difference after it. -/
theorem endsInWhole_append (h : (∀ mark ∈ front.getLast?, isDigit mark.1 = false ∧ mark ≠ ('.', true)) ∨
      ∃ next ∈ before.head?, isDigit next.1 = false) :
    EndsInWhole (front ++ before) ↔ EndsInWhole before := by
  -- a run has no character that is no digit, so none can begin with the one behind the place
  have hnext : ∀ run : List (Char × Bool), (∀ mark ∈ run, isDigit mark.1 = true) →
      ¬∃ next ∈ run.head?, isDigit next.1 = false := by
    rintro run hrun ⟨next, hnext, hdigit⟩
    rw [hrun next (List.mem_of_mem_head? hnext)] at hdigit
    cases hdigit
  constructor
  · rintro ⟨earlier, run, hsplit, hne, hrun, hlast⟩
    rcases List.append_eq_append_iff.mp hsplit with ⟨middle, rfl, rfl⟩ | ⟨middle, rfl, rfl⟩
    · refine ⟨middle, run, rfl, hne, hrun, fun mark hmark => hlast mark ?_⟩
      rw [List.getLast?_append, Option.mem_def.mp hmark]
      rfl
    · rcases List.eq_nil_or_concat' middle with rfl | ⟨init, mark, rfl⟩
      · refine ⟨[], before, rfl, hne, hrun, ?_⟩
        rintro mark ⟨⟩
      · have hdigit : isDigit mark.1 = true := hrun mark (by simp)
        rcases h with hnot | hnot
        · rw [(hnot mark (by simp)).1] at hdigit
          cases hdigit
        · exact absurd hnot (hnext before fun next hmem => hrun next (List.mem_append_right _ hmem))
  · rintro ⟨earlier, run, rfl, hne, hrun, hlast⟩
    refine ⟨front ++ earlier, run, (List.append_assoc _ _ _).symm, hne, hrun, fun mark hmark => ?_⟩
    rcases List.eq_nil_or_concat' earlier with rfl | ⟨init, last, rfl⟩
    · rw [List.append_nil] at hmark
      exact h.resolve_right (hnext run hrun) mark hmark
    · refine hlast mark ?_
      rw [← List.append_assoc, List.getLast?_concat] at hmark
      rw [List.getLast?_concat]
      exact hmark

/-- The fraction of a number is no whole part. -/
theorem not_endsInWhole_fraction {places : List Char} (h : IsRun places) :
    ¬EndsInWhole (front ++ ('.', true) :: Segment.kept places) := by
  rintro ⟨earlier, run, hsplit, hne, hrun, hlast⟩
  have hplaces := Segment.isDigit_of_mem_kept h.isDigit_of_mem
  rw [List.append_cons] at hsplit
  rcases List.append_eq_append_iff.mp hsplit with ⟨middle, rfl, hrest⟩ | ⟨middle, hfront, rfl⟩
  · rw [hrest] at hplaces
    rcases List.eq_nil_or_concat' middle with rfl | ⟨init, last, rfl⟩
    · exact (hlast ('.', true) (by simp)).2 rfl
    · have hdigit := hplaces last (by simp)
      rw [(hlast last (by rw [← List.append_assoc, List.getLast?_concat]; rfl)).1] at hdigit
      cases hdigit
  · rcases List.eq_nil_or_concat' middle with rfl | ⟨init, last, rfl⟩
    · rw [List.append_nil] at hfront
      exact (hlast ('.', true) (by rw [← hfront, List.getLast?_concat]; rfl)).2 rfl
    · rw [← List.append_assoc] at hfront
      have hpoint : [('.', true)] = [last] := (List.append_inj' hfront rfl).2
      have hdigit := hrun last (by simp)
      rw [← List.singleton_injective hpoint, isDigit_point] at hdigit
      cases hdigit

/-- Marked characters join their points when those in front do, when a point directly behind the front
joins nothing, and when no run of digits goes over from the front. -/
theorem PointsJoin.append (h : PointsJoin marked)
    (hfront : ∀ before kept after, front = before ++ ('.', kept) :: after →
      (kept = true ↔ EndsInWhole before ∧ BeginsWithDigit (after ++ marked)))
    (hfirst : ∀ kept after, marked = ('.', kept) :: after →
      ¬(EndsInWhole front ∧ BeginsWithDigit after))
    (hnext : (∀ mark ∈ front.getLast?, isDigit mark.1 = false ∧ mark ≠ ('.', true)) ∨
      ∀ next ∈ marked.head?, isDigit next.1 = false) :
    PointsJoin (front ++ marked) := by
  have hbehind : ∀ kept after, marked = ('.', kept) :: after →
      (kept = true ↔ EndsInWhole front ∧ BeginsWithDigit after) := by
    intro kept after hmarked
    have hnone : ¬(EndsInWhole [] ∧ BeginsWithDigit after) := fun hwhole => not_endsInWhole_nil hwhole.1
    rw [h [] kept after hmarked]
    exact iff_of_false hnone (hfirst kept after hmarked)
  intro before kept after hsplit
  rcases List.append_eq_append_iff.mp hsplit with ⟨middle, rfl, hmarked⟩ | ⟨middle, rfl, hmarked⟩
  · cases middle with
    | nil =>
        rw [List.append_nil]
        exact hbehind kept after hmarked
    | cons next middle =>
        rw [h (next :: middle) kept after hmarked, endsInWhole_append]
        refine hnext.imp_right fun hdigit => ⟨next, rfl, hdigit next ?_⟩
        rw [hmarked]
        rfl
  · cases middle with
    | nil =>
        rw [List.append_nil] at hbehind
        exact hbehind kept after hmarked.symm
    | cons next middle =>
        obtain ⟨rfl, rfl⟩ := List.cons.inj hmarked
        exact hfront before kept middle rfl

theorem pointsJoin_nil : PointsJoin [] := by
  intro before kept after hnil
  cases (List.append_eq_nil_iff.mp hnil.symm).2

/-- A character that is no digit and no point of a lexeme stands between numbers. -/
theorem PointsJoin.cons {mark : Char × Bool} (h : PointsJoin marked) (hdigit : isDigit mark.1 = false)
    (hpoint : mark ≠ ('.', true)) : PointsJoin (mark :: marked) := by
  have hnot : ¬EndsInWhole [mark] := by
    rintro ⟨earlier, run, hsplit, hne, hrun, -⟩
    obtain ⟨other, hother⟩ := List.exists_mem_of_ne_nil run hne
    have hmark : other ∈ [mark] := by
      rw [hsplit]
      exact List.mem_append_right earlier hother
    rw [← List.mem_singleton.mp hmark, hrun other hother] at hdigit
    cases hdigit
  have hcons : PointsJoin ([mark] ++ marked) := by
    refine h.append ?_ ?_ (Or.inl ?_)
    · intro before kept after hsplit
      rcases List.cons_eq_append_iff.mp hsplit with ⟨rfl, hmark⟩ | ⟨more, rfl, hmore⟩
      · refine iff_of_false ?_ fun hwhole => not_endsInWhole_nil hwhole.1
        rintro rfl
        exact hpoint (List.cons.inj hmark).1.symm
      · cases (List.append_eq_nil_iff.mp hmore.symm).2
    · exact fun kept after _ hwhole => hnot hwhole.1
    · intro last hlast
      obtain rfl : mark = last := Option.some.inj hlast
      exact ⟨hdigit, hpoint⟩
  exact hcons

/-- A number with a fraction has one point. -/
theorem eq_of_kept_fraction {digits places : List Char} (hdigits : IsRun digits) (hplaces : IsRun places)
    {kept : Bool} {after : List (Char × Bool)}
    (h : Segment.kept digits ++ ('.', true) :: Segment.kept places = before ++ ('.', kept) :: after) :
    before = Segment.kept digits ∧ kept = true ∧ after = Segment.kept places := by
  have hnot : ∀ {cs : List Char}, IsRun cs → ('.', kept) ∉ Segment.kept cs := by
    intro cs hcs hmem
    have hdigit := Segment.isDigit_of_mem_kept hcs.isDigit_of_mem _ hmem
    rw [isDigit_point] at hdigit
    cases hdigit
  rcases List.append_eq_append_iff.mp h with ⟨middle, rfl, hmiddle⟩ | ⟨middle, hmiddle, hpoint⟩
  · cases middle with
    | nil =>
        obtain ⟨hmark, rfl⟩ := List.cons.inj hmiddle
        exact ⟨List.append_nil _, (Prod.mk.inj hmark).2.symm, rfl⟩
    | cons next middle =>
        refine absurd ?_ (hnot hplaces)
        rw [(List.cons.inj hmiddle).2]
        simp
  · cases middle with
    | nil =>
        obtain ⟨hmark, rfl⟩ := List.cons.inj hpoint
        exact ⟨by rw [hmiddle, List.append_nil], (Prod.mk.inj hmark).2, rfl⟩
    | cons next middle =>
        refine absurd ?_ (hnot hdigits)
        rw [hmiddle, (List.cons.inj hpoint).1]
        simp

theorem Divided.head?_marks {cs : List Char} {segments : List Segment} (h : Divided cs segments)
    (hstops : Stops cs) :
    ∀ next ∈ (segments.flatMap Segment.marks).head?, isDigit next.1 = false := by
  intro next hnext
  refine hstops next.1 ?_
  rw [← h.text_eq, ← Segment.map_fst_marks, List.head?_map, Option.mem_def.mp hnext]
  rfl

/-- A point of a text is part of a lexeme exactly where it stands between a whole part and a digit. -/
theorem Divided.pointsJoin {cs : List Char} {segments : List Segment} (h : Divided cs segments) :
    PointsJoin (segments.flatMap Segment.marks) := by
  induction h with
  | nil => exact pointsJoin_nil
  | @whole digits rest segments hdigits hstops hpoint hrest ih =>
      have hkept := Segment.isDigit_of_mem_kept hdigits.isDigit_of_mem
      rw [List.flatMap_cons]
      refine ih.append ?_ ?_ (Or.inr (hrest.head?_marks hstops))
      · intro before kept after hsplit
        have hmem : ('.', kept) ∈ (Segment.lexeme (.number digits none)).marks := by
          rw [hsplit]
          simp
        have hdigit := hkept _ hmem
        rw [isDigit_point] at hdigit
        cases hdigit
      · rintro kept after hmarked ⟨-, next, hnext, hdigit⟩
        have hafter : rest = '.' :: after.map Prod.fst := by
          rw [← hrest.text_eq, ← Segment.map_fst_marks, hmarked]
          rfl
        have hnot := hpoint _ hafter next.1 (by rw [List.head?_map, Option.mem_def.mp hnext]; rfl)
        rw [hdigit] at hnot
        cases hnot
  | @fraction digits places rest segments hdigits hplaces hstops hrest ih =>
      have hmarks : Segment.marks (.lexeme (.number digits (some places))) =
          Segment.kept digits ++ ('.', true) :: Segment.kept places := by
        rw [Segment.marks, text, Segment.kept, List.map_append, List.map_cons]
        rfl
      rw [List.flatMap_cons, hmarks]
      refine ih.append ?_ ?_ (Or.inr (hrest.head?_marks hstops))
      · intro before kept after hsplit
        obtain ⟨rfl, rfl, rfl⟩ := eq_of_kept_fraction hdigits hplaces hsplit
        obtain ⟨c, cs, rfl⟩ := List.exists_cons_of_ne_nil hplaces.ne_nil
        refine iff_of_true rfl ⟨endsInWhole_kept hdigits, (c, true), rfl, ?_⟩
        exact hplaces.isDigit_of_mem c List.mem_cons_self
      · exact fun kept after _ hwhole => not_endsInWhole_fraction hplaces hwhole.1
  | @symbol c _ _ _ hdigit hsymbol _ ih =>
      rw [List.flatMap_cons, Segment.marks, text_of_symbol hsymbol]
      refine ih.cons hdigit ?_
      rintro ⟨⟩
      cases hsymbol
  | @skipped c _ _ hdigit _ _ ih =>
      refine ih.cons hdigit ?_
      rintro ⟨⟩

/-! ### Tokens of any text -/

/-- The lexemes of a text, without their points, are its digits and symbols in order. -/
theorem filter_text_scan (cs : List Char) :
    ((scan cs).flatMap text).filter (· ≠ '.') = cs.filter isSignificant := by
  obtain ⟨segments, hdivided, hlexemes⟩ := exists_divided cs
  have hkept : ∀ mark ∈ segments.flatMap Segment.marks,
      (decide (mark.1 ≠ '.') && mark.2) = isSignificant mark.1 := by
    intro mark hmark
    obtain ⟨segment, hsegment, hmark⟩ := List.mem_flatMap.mp hmark
    by_cases hpoint : mark.1 = '.'
    · rw [hpoint, isSignificant_point]
      rfl
    · rw [hdivided.kept_eq segment hsegment mark hmark hpoint, decide_eq_true hpoint, Bool.true_and]
  rw [← hlexemes, ← Segment.filter_marks, ← hdivided.text_eq, ← Segment.map_fst_marks,
    List.filter_map, List.filter_map, List.filter_filter]
  exact congrArg _ (List.filter_congr hkept)

/-- Only a text without digits and symbols has no lexemes. -/
theorem scan_eq_nil_iff (cs : List Char) :
    scan cs = [] ↔ ∀ c ∈ cs, isSignificant c = false := by
  constructor
  · intro hnil c hc
    have hfilter := filter_text_scan cs
    rw [hnil, List.flatMap_nil, List.filter_nil] at hfilter
    exact Bool.eq_false_iff.mpr (List.filter_eq_nil_iff.mp hfilter.symm c hc)
  · intro hnone
    obtain ⟨segments, hdivided, hlexemes⟩ := exists_divided cs
    rw [List.eq_nil_iff_forall_not_mem]
    intro l hl
    rw [← hlexemes] at hl
    obtain ⟨segment, hsegment, hlexeme⟩ := List.mem_filterMap.mp hl
    cases segment with
    | skipped c => cases hlexeme
    | lexeme other =>
        obtain rfl := Option.some.inj hlexeme
        obtain ⟨c, hc, hsignificant⟩ := hdivided.exists_significant other hsegment
        have hmem : c ∈ cs := by
          rw [← hdivided.text_eq]
          exact List.mem_flatMap.mpr ⟨.lexeme other, hsegment, hc⟩
        rw [hnone c hmem] at hsignificant
        cases hsignificant

end Lexeme

namespace Expression

open Lexeme (scan isSignificant PointsJoin)

theorem tokens_of_significant {s : String} (h : ∃ c ∈ s.toList, isSignificant c = true) :
    tokens s = .ok ((scan s.toList).map Lexeme.token) := by
  obtain ⟨c, hc, hsignificant⟩ := h
  refine tokens_of_ne_nil fun hnil => ?_
  rw [List.map_eq_nil_iff, Lexeme.scan_eq_nil_iff] at hnil
  rw [hnil c hc] at hsignificant
  cases hsignificant

theorem tokens_of_insignificant {s : String} (h : ∀ c ∈ s.toList, isSignificant c = false) :
    tokens s = .error (.noTokens s) := by
  rw [tokens, (Lexeme.scan_eq_nil_iff s.toList).mpr h, List.map_nil]

/-- Nothing that counts is lost between a text and its tokens. The lexemes, without their points, are
the digits and symbols of the text in order. The text falls into lexemes and characters that are passed
over: no digit or symbol is passed over, a point only where it does not join a whole part to a digit, and
everything else is. So the text has tokens exactly if it has a digit or a symbol, and is an invalid
expression if it has none. -/
theorem tokens_conserve (s : String) :
    ((scan s.toList).flatMap Lexeme.text).filter (· ≠ '.') = s.toList.filter isSignificant ∧
    (∃ segments : List Segment, segments.flatMap Segment.text = s.toList ∧
      segments.filterMap Segment.lexeme? = scan s.toList ∧
      (∀ segment ∈ segments, ∀ mark ∈ segment.marks, mark.1 ≠ '.' →
        mark.2 = isSignificant mark.1) ∧
      PointsJoin (segments.flatMap Segment.marks)) ∧
    (∀ ts, tokens s = .ok ts ↔
      (∃ c ∈ s.toList, isSignificant c = true) ∧ ts = (scan s.toList).map Lexeme.token) ∧
    (∀ err, tokens s = .error err ↔
      (∀ c ∈ s.toList, isSignificant c = false) ∧ err = .noTokens s) ∧
    (CalculationError.noTokens s).kind = "InvalidExpression" := by
  refine ⟨Lexeme.filter_text_scan s.toList, ?_, ?_⟩
  · obtain ⟨segments, hdivided, hlexemes⟩ := Lexeme.exists_divided s.toList
    exact ⟨segments, hdivided.text_eq, hlexemes, hdivided.kept_eq, hdivided.pointsJoin⟩
  by_cases hsome : ∃ c ∈ s.toList, isSignificant c = true
  · have hnot : ¬∀ c ∈ s.toList, isSignificant c = false := by
      intro hnone
      obtain ⟨c, hc, hsignificant⟩ := hsome
      rw [hnone c hc] at hsignificant
      cases hsignificant
    refine ⟨fun ts => ?_, fun err => ?_, rfl⟩
    · rw [tokens_of_significant hsome, Except.ok.injEq]
      exact ⟨fun heq => ⟨hsome, heq.symm⟩, fun h => h.2.symm⟩
    · rw [tokens_of_significant hsome]
      refine iff_of_false ?_ fun h => hnot h.1
      rintro ⟨⟩
  · have hnone : ∀ c ∈ s.toList, isSignificant c = false := fun c hc =>
      Bool.eq_false_iff.mpr fun hsignificant => hsome ⟨c, hc, hsignificant⟩
    refine ⟨fun ts => ?_, fun err => ?_, rfl⟩
    · rw [tokens_of_insignificant hnone]
      refine iff_of_false ?_ fun h => hsome h.1
      rintro ⟨⟩
    · rw [tokens_of_insignificant hnone, Except.error.injEq]
      exact ⟨fun heq => ⟨hnone, heq.symm⟩, fun h => h.2.symm⟩

/-- The scan begins anew behind each number, so of the points in a chain every second one joins. -/
example : (scan "1.2.3.4..5".toList).map Lexeme.text =
    [['1', '.', '2'], ['3', '.', '4'], ['5']] := by
  decide +kernel

end Expression
end Reckoner
