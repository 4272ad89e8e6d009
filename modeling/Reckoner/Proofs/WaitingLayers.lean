import Reckoner.Proofs.InfixBalance

/-! What waits while tokens are arranged. An operator releases all that binds at least as tightly before it
waits itself, so it comes to stand on an operator that binds less tightly, on an opening parenthesis or at
the bottom (`Layered`). Every token keeps that, whether parentheses match or not. Between two opening
parentheses the operators that wait therefore bind the tighter the later they came, and as there are two
precedences, no more than two of them wait there (`arrangement_layers`). -/

namespace Reckoner

theorem Operator.precedence_bounds (op : Operator) : 1 ≤ op.precedence ∧ op.precedence ≤ 2 := by
  cases op <;> decide

/-- Whether a token may wait: for its right operand, or for its closing parenthesis. -/
def Token.mayWait : Token → Bool
  | .operator _ | .opening => true
  | .number _ | .closing => false

namespace Postfix

open Arrangement (contents waitingItem?)

/-- The token that waits. -/
def Waiting.token : Waiting → Token
  | .operator op => .operator op
  | .opening => .opening

/-- Each operator that waits binds more tightly than the one it stands on, if it stands on one. -/
def Layered : List Waiting → Prop
  | [] => True
  | .opening :: below => Layered below
  | .operator op :: below => Settled op.precedence below ∧ Layered below

variable {a : Arrangement} {seen : List Token} {waiting : List Waiting}

theorem Layered.of_append {above below : List Waiting} (h : Layered (above ++ below)) : Layered below := by
  induction above with
  | nil => exact h
  | cons w above ih =>
      cases w with
      | opening => exact ih h
      | operator op => exact ih h.2

/-- What stands above a part of what waits does not matter to whether that part is in order. -/
theorem Layered.of_operators {ops : List Operator} {rest : List Waiting} (h : Layered a.waiting)
    (hwaiting : a.waiting = ops.map .operator ++ rest) : Layered rest := by
  rw [hwaiting] at h
  exact h.of_append

theorem Layered.read (h : Layered a.waiting) (token : Token) : Layered (a.read token).waiting := by
  cases token with
  | number x => exact h
  | operator op =>
      obtain ⟨ops, rest, hwaiting, -, hsettled, hrelease⟩ := exists_release op.precedence a
      rw [Arrangement.read, hrelease]
      exact ⟨hsettled, h.of_operators hwaiting⟩
  | opening => exact h
  | closing =>
      obtain ⟨ops, rest, hwaiting, hrest, hclose⟩ := exists_close a
      have hbelow : Layered rest := h.of_operators hwaiting
      rw [Arrangement.read, hclose]
      rcases hrest with rfl | ⟨below, rfl⟩
      · exact hbelow
      · exact hbelow

/-- A part of what waits is a part of the tokens that may wait. -/
theorem sublist_of_operators {ops : List Operator} {rest : List Waiting} {tokens : List Token}
    (h : (a.waiting.reverse.map Waiting.token).Sublist tokens)
    (hwaiting : a.waiting = ops.map .operator ++ rest) :
    (rest.reverse.map Waiting.token).Sublist tokens := by
  rw [hwaiting, List.reverse_append, List.map_append] at h
  exact (List.sublist_append_left _ _).trans h

/-- What waits stands in the order in which it was read. -/
theorem sublist_read (h : (a.waiting.reverse.map Waiting.token).Sublist (seen.filter Token.mayWait))
    (token : Token) :
    ((a.read token).waiting.reverse.map Waiting.token).Sublist
      ((seen ++ [token]).filter Token.mayWait) := by
  rw [List.filter_append]
  cases token with
  | number x => exact h.trans (List.sublist_append_left _ _)
  | operator op =>
      obtain ⟨ops, rest, hwaiting, -, -, hrelease⟩ := exists_release op.precedence a
      rw [Arrangement.read, hrelease, List.reverse_cons, List.map_append]
      exact (sublist_of_operators h hwaiting).append_right [.operator op]
  | opening =>
      rw [Arrangement.read, List.reverse_cons, List.map_append]
      exact h.append_right [.opening]
  | closing =>
      obtain ⟨ops, rest, hwaiting, -, hclose⟩ := exists_close a
      have htail : (rest.tail.reverse.map Waiting.token).Sublist (rest.reverse.map Waiting.token) :=
        (List.reverse_sublist.2 (List.tail_sublist rest)).map Waiting.token
      rw [Arrangement.read, hclose]
      exact (htail.trans (sublist_of_operators h hwaiting)).trans (List.sublist_append_left _ _)

/-- What holds between two tokens, `seen` being those that were read. -/
structure Arranged (seen : List Token) (a : Arrangement) : Prop where
  layered : Layered a.waiting
  waiting_sublist : (a.waiting.reverse.map Waiting.token).Sublist (seen.filter Token.mayWait)
  contents_perm : (contents a).Perm (itemsOf seen)

theorem arranged_empty : Arranged [] .empty :=
  ⟨trivial, List.Sublist.refl [], List.Perm.refl []⟩

theorem Arranged.read (h : Arranged seen a) (token : Token) :
    Arranged (seen ++ [token]) (a.read token) := by
  refine ⟨h.layered.read token, sublist_read h.waiting_sublist token, ?_⟩
  have hitems : itemsOf (seen ++ [token]) = itemsOf seen ++ token.item?.toList := by
    rw [itemsOf, List.filterMap_append]
    cases token <;> rfl
  rw [hitems]
  exact (contents_read a token).trans (h.contents_perm.append_right _)

/-- All tokens of a list, one after another. -/
theorem Arranged.foldl_read (h : Arranged seen a) (ts : List Token) :
    Arranged (seen ++ ts) (ts.foldl Arrangement.read a) := by
  induction ts generalizing seen a with
  | nil =>
      rw [List.append_nil]
      exact h
  | cons token ts ih =>
      rw [List.append_cons]
      exact ih (h.read token)

/-- Operators that wait side by side, the newest first, bind ever less tightly. -/
theorem Layered.pairwise {ops : List Operator} {below : List Waiting}
    (h : Layered (ops.map .operator ++ below)) :
    ops.Pairwise fun later earlier => earlier.precedence < later.precedence := by
  induction ops with
  | nil => exact List.Pairwise.nil
  | cons op ops ih =>
      obtain ⟨hsettled, hbelow⟩ := h
      have hpairwise := ih hbelow
      refine List.pairwise_cons.mpr ⟨?_, hpairwise⟩
      cases ops with
      | nil => simp
      | cons next ops =>
          have hnext : next.precedence < op.precedence := hsettled
          refine List.forall_mem_cons.mpr ⟨hnext, fun earlier hearlier => ?_⟩
          exact Nat.lt_trans (List.rel_of_pairwise_cons hpairwise hearlier) hnext

/-- Nothing that waits is released at a level above both precedences. -/
theorem settled_of_two_lt {level : Nat} (hlevel : 2 < level) (waiting : List Waiting) :
    Settled level waiting := by
  cases waiting with
  | nil => trivial
  | cons w below =>
      cases w with
      | opening => trivial
      | operator op => exact Nat.lt_of_le_of_lt op.precedence_bounds.2 hlevel

/-- Of operators that stand on each other none is released at a level above the newest one's, so there are
fewer of them than this level; and two at most wait below each opening parenthesis. -/
theorem Layered.length_le {level : Nat} (h : Layered waiting) (hsettled : Settled level waiting)
    (hlevel : 1 ≤ level) :
    (waiting.filterMap waitingItem?).length ≤ 2 * waiting.count .opening + (level - 1) := by
  induction waiting generalizing level with
  | nil => exact Nat.zero_le _
  | cons w below ih =>
      cases w with
      | opening =>
          have hitem : waitingItem? .opening = none := rfl
          have hbelow := ih h (settled_of_two_lt (Nat.lt_succ_self 2) below) (by decide)
          rw [List.count_cons_self, List.filterMap_cons_none hitem]
          omega
      | operator op =>
          have hitem : waitingItem? (.operator op) = some (.operator op) := rfl
          have hop : op.precedence < level := hsettled
          have hleast : 1 ≤ op.precedence := op.precedence_bounds.1
          have hbelow := ih h.2 h.1 hleast
          rw [List.count_cons_of_ne (by simp), List.filterMap_cons_some hitem, List.length_cons]
          omega

/-- Between two tokens, whatever they are and whether parentheses match or not: what waits are operators and
opening parentheses that were read, in the order in which they were read; operators that wait side by side
bind the tighter the later they came; at most two of them wait above each opening parenthesis, and two more
below the first; and what is released and what waits are together the numbers and operators that were read. -/
theorem arrangement_layers (ts : List Token) (k : Nat) :
    let a := (ts.take k).foldl Arrangement.read .empty
    ofTokens ts = ((ts.drop k).foldl Arrangement.read a).finish ∧
      (a.waiting.reverse.map Waiting.token).Sublist ((ts.take k).filter Token.mayWait) ∧
      (∀ (above : List Waiting) (ops : List Operator) (below : List Waiting),
        a.waiting = above ++ ops.map .operator ++ below →
          ops.Pairwise fun later earlier => earlier.precedence < later.precedence) ∧
      (a.waiting.filterMap waitingItem?).length ≤ 2 * (a.waiting.count .opening + 1) ∧
      (a.released ++ a.waiting.filterMap waitingItem?).Perm (itemsOf (ts.take k)) := by
  intro a
  have harranged : Arranged (ts.take k) a := arranged_empty.foldl_read (ts.take k)
  refine ⟨?_, harranged.waiting_sublist, ?_, ?_, harranged.contents_perm⟩
  · rw [ofTokens, ← List.foldl_append, List.take_append_drop]
  · intro above ops below hwaiting
    have hlayered := harranged.layered
    rw [hwaiting, List.append_assoc] at hlayered
    exact hlayered.of_append.pairwise
  · exact harranged.layered.length_le (settled_of_two_lt (Nat.lt_succ_self 2) a.waiting) (by decide)

/-- In the middle of `1 + 2 * (3 - 4 / 5` the most operators wait that one opening parenthesis allows. -/
example : (([.number 1, .operator .add, .number 2, .operator .mul, .opening, .number 3, .operator .sub,
    .number 4, .operator .div, .number 5] : List Token).foldl Arrangement.read .empty).waiting =
      [.operator .div, .operator .sub, .opening, .operator .mul, .operator .add] := by
  simp [Arrangement.read, Arrangement.empty, release, Operator.precedence]

end Postfix

end Reckoner
