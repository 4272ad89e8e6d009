import Reckoner.Proofs.InfixBalance

/-! The parentheses that tokens lack, counted from left to right, and the tokens that they complete. A
list of tokens is `Paired` if no beginning of it closes more parentheses than it opens, and all of it
closes as many. Parentheses around tokens pair them exactly if there are as many in front as closing
ones have no partner and as many at the end as opening ones have none, or as many more on both sides
(`paired_enclosed_iff_unmatched`); so the two counts are the least that will do. -/

namespace Reckoner.Postfix

/-- Parentheses that pair off: none closes what was not opened before it, and none stays open. -/
structure Paired (ts : List Token) : Prop where
  opened : ∀ before, before <+: ts → before.count .closing ≤ before.count .opening
  closed : ts.count .closing = ts.count .opening

/-- Tokens that close no more than they open and `depth` parentheses besides, wherever they are cut. -/
def Covered (depth : Nat) (ts : List Token) : Prop :=
  ∀ before, before <+: ts → before.count .closing ≤ depth + before.count .opening

theorem paired_iff (ts : List Token) :
    Paired ts ↔ Covered 0 ts ∧ ts.count .closing = ts.count .opening := by
  constructor
  · intro h
    refine ⟨fun before hbefore => ?_, h.closed⟩
    rw [Nat.zero_add]
    exact h.opened before hbefore
  · rintro ⟨hcovered, hclosed⟩
    refine ⟨fun before hbefore => ?_, hclosed⟩
    rw [← Nat.zero_add (before.count .opening)]
    exact hcovered before hbefore

theorem covered_nil (depth : Nat) : Covered depth [] := by
  intro before hbefore
  rw [List.prefix_nil.mp hbefore]
  exact Nat.zero_le depth

theorem covered_cons (depth : Nat) (token : Token) (ts : List Token) :
    Covered depth (token :: ts) ↔
      ∀ before, before <+: ts →
        (token :: before).count .closing ≤ depth + (token :: before).count .opening := by
  constructor
  · intro h before hbefore
    exact h (token :: before) (List.cons_prefix_cons.mpr ⟨rfl, hbefore⟩)
  · intro h before hbefore
    rcases List.prefix_cons_iff.mp hbefore with rfl | ⟨rest, rfl, hrest⟩
    · exact Nat.zero_le depth
    · exact h rest hrest

/-- Numbers and operators neither open nor close. -/
theorem covered_item {token : Token} {item : PostfixItem} (h : token.item? = some item) (depth : Nat)
    (ts : List Token) : Covered depth (token :: ts) ↔ Covered depth ts := by
  have hopening : token ≠ .opening := by
    rintro rfl
    cases h
  have hclosing : token ≠ .closing := by
    rintro rfl
    cases h
  rw [covered_cons]
  simp only [Covered, List.count_cons_of_ne hopening, List.count_cons_of_ne hclosing]

theorem covered_opening (depth : Nat) (ts : List Token) :
    Covered depth (.opening :: ts) ↔ Covered (depth + 1) ts := by
  rw [covered_cons]
  simp [Covered, Nat.add_assoc, Nat.add_comm 1]

theorem covered_closing_succ (depth : Nat) (ts : List Token) :
    Covered (depth + 1) (.closing :: ts) ↔ Covered depth ts := by
  rw [covered_cons]
  simp [Covered, Nat.add_right_comm]

theorem not_covered_closing (ts : List Token) : ¬ Covered 0 (.closing :: ts) := by
  intro h
  have hfirst : (1 : Nat) ≤ 0 := h [.closing] (List.cons_prefix_cons.mpr ⟨rfl, List.nil_prefix⟩)
  omega

theorem unmatchedClosings_le_iff (depth count : Nat) (ts : List Token) :
    unmatchedClosings depth ts ≤ count ↔ Covered (depth + count) ts := by
  induction ts generalizing depth count with
  | nil =>
      rw [unmatchedClosings]
      exact iff_of_true (Nat.zero_le count) (covered_nil (depth + count))
  | cons token ts ih =>
      cases token with
      | number x => rw [unmatchedClosings, covered_item rfl, ih]
      | operator op => rw [unmatchedClosings, covered_item rfl, ih]
      | opening => rw [unmatchedClosings, covered_opening, ih, Nat.add_right_comm]
      | closing =>
          cases depth with
          | succ depth => rw [unmatchedClosings, Nat.add_right_comm, covered_closing_succ, ih]
          | zero =>
              cases count with
              | zero =>
                  rw [unmatchedClosings]
                  exact iff_of_false (Nat.not_succ_le_zero _) (not_covered_closing ts)
              | succ count =>
                  rw [unmatchedClosings, Nat.succ_le_succ_iff, ih, ← Nat.add_assoc,
                    covered_closing_succ]

/-- What is opened is closed or stays open, and what is closed was open or has no partner. -/
theorem unmatchedOpenings_add_count (depth : Nat) (ts : List Token) :
    unmatchedOpenings depth ts + ts.count .closing =
      depth + ts.count .opening + unmatchedClosings depth ts := by
  induction ts generalizing depth with
  | nil => rfl
  | cons token ts ih =>
      cases token with
      | number x => simpa [unmatchedOpenings, unmatchedClosings] using ih depth
      | operator op => simpa [unmatchedOpenings, unmatchedClosings] using ih depth
      | opening =>
          rw [unmatchedOpenings, unmatchedClosings, List.count_cons_self,
            List.count_cons_of_ne (by decide), ih, Nat.add_assoc depth, Nat.add_comm 1]
      | closing =>
          rw [List.count_cons_self, List.count_cons_of_ne (by decide)]
          cases depth with
          | zero => rw [unmatchedOpenings, unmatchedClosings, ← Nat.add_assoc, ih, Nat.add_assoc]
          | succ depth =>
              rw [unmatchedOpenings, unmatchedClosings, Nat.add_sub_cancel, ← Nat.add_assoc, ih]
              omega

theorem covered_openings_append (count depth : Nat) (ts : List Token) :
    Covered depth (List.replicate count .opening ++ ts) ↔ Covered (depth + count) ts := by
  induction count generalizing depth with
  | zero => rfl
  | succ count ih =>
      rw [List.replicate_succ, List.cons_append, covered_opening, ih, Nat.add_right_comm,
        Nat.add_assoc]

theorem covered_closings (count : Nat) : Covered count (List.replicate count .closing) := by
  induction count with
  | zero => exact covered_nil 0
  | succ count ih => exact (covered_closing_succ count _).mpr ih

/-- Closing parentheses at the end, if they are no more than those that are open there. -/
theorem covered_append_closings {depth count : Nat} {ts : List Token}
    (hcount : ts.count .closing + count = depth + ts.count .opening) :
    Covered depth (ts ++ List.replicate count .closing) ↔ Covered depth ts := by
  induction ts generalizing depth with
  | nil =>
      have hdepth : count = depth := by simpa using hcount
      rw [List.nil_append, hdepth]
      exact iff_of_true (covered_closings depth) (covered_nil depth)
  | cons token ts ih =>
      rw [List.cons_append]
      cases token with
      | number x =>
          rw [covered_item rfl, covered_item rfl]
          exact ih (by simpa [List.count_cons] using hcount)
      | operator op =>
          rw [covered_item rfl, covered_item rfl]
          exact ih (by simpa [List.count_cons] using hcount)
      | opening =>
          rw [List.count_cons_self, List.count_cons_of_ne (by decide)] at hcount
          rw [covered_opening, covered_opening]
          exact ih (by omega)
      | closing =>
          cases depth with
          | zero => exact iff_of_false (not_covered_closing _) (not_covered_closing _)
          | succ depth =>
              rw [List.count_cons_self, List.count_cons_of_ne (by decide)] at hcount
              rw [covered_closing_succ, covered_closing_succ]
              exact ih (by omega)

theorem count_closing_enclosed (openings closings : Nat) (ts : List Token) :
    (enclosed openings closings ts).count .closing = ts.count .closing + closings := by
  simp [enclosed, List.count_eq_zero]

theorem count_opening_enclosed (openings closings : Nat) (ts : List Token) :
    (enclosed openings closings ts).count .opening = openings + ts.count .opening := by
  simp [enclosed, List.count_eq_zero]

theorem paired_enclosed_iff (openings closings : Nat) (ts : List Token) :
    Paired (enclosed openings closings ts) ↔
      Covered openings ts ∧ ts.count .closing + closings = openings + ts.count .opening := by
  rw [paired_iff, count_closing_enclosed, count_opening_enclosed, enclosed, List.append_assoc,
    covered_openings_append, Nat.zero_add]
  exact and_congr_left covered_append_closings

/-- The numbers of parentheses that pair tokens are those of the parentheses without a partner, or as
many more of both. -/
theorem paired_enclosed_iff_unmatched (openings closings : Nat) (ts : List Token) :
    Paired (enclosed openings closings ts) ↔
      ∃ more, openings = unmatchedClosings 0 ts + more ∧ closings = unmatchedOpenings 0 ts + more := by
  have hcounts := unmatchedOpenings_add_count 0 ts
  have hcovered := unmatchedClosings_le_iff 0 openings ts
  rw [Nat.zero_add] at hcovered
  rw [paired_enclosed_iff, ← hcovered]
  constructor
  · rintro ⟨hle, hclosed⟩
    exact ⟨openings - unmatchedClosings 0 ts, by omega, by omega⟩
  · rintro ⟨more, hopenings, hclosings⟩
    exact ⟨by omega, by omega⟩

/-- Parentheses that do not match are completed: with an opening one in front for each closing one
without a partner, and a closing one at the end for each that is left open, tokens pair off and have
the postfix sequence that they have without them; and no smaller completion pairs them. -/
theorem ofTokens_completed (ts : List Token) :
    ofTokens (enclosed (unmatchedClosings 0 ts) (unmatchedOpenings 0 ts) ts) = ofTokens ts ∧
      Paired (enclosed (unmatchedClosings 0 ts) (unmatchedOpenings 0 ts) ts) ∧
      ∀ openings closings, Paired (enclosed openings closings ts) →
        unmatchedClosings 0 ts ≤ openings ∧ unmatchedOpenings 0 ts ≤ closings := by
  refine ⟨ofTokens_enclosed _ _ ts, ?_, ?_⟩
  · exact (paired_enclosed_iff_unmatched _ _ ts).mpr ⟨0, rfl, rfl⟩
  · intro openings closings h
    obtain ⟨more, rfl, rfl⟩ := (paired_enclosed_iff_unmatched openings closings ts).mp h
    exact ⟨Nat.le_add_right _ more, Nat.le_add_right _ more⟩

/-- In `)(` both parentheses are without a partner, and `()()` completes them. -/
example : unmatchedClosings 0 [.closing, .opening] = 1 ∧ unmatchedOpenings 0 [.closing, .opening] = 1 ∧
    enclosed 1 1 [.closing, .opening] = [.opening, .closing, .opening, .closing] := by
  decide

end Reckoner.Postfix
