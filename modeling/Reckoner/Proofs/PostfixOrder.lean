import Reckoner.Proofs.InfixBalance

/-! Where the items of a postfix sequence come from. Each number and each operator keeps its place in the
source while it is released or waits (`Placement`). A token takes none away and adds no item but its own;
a number is released after all that was read before it, unless that still waits, and what waits is never a
number. So a postfix sequence is its source in another order, in which an operator comes after every number
that precedes it (`ofTokens_conserves`). -/

namespace Reckoner.Postfix

open Arrangement (waitingItem?)

/-- The numbers and operators among tokens, each with its place, the first token standing at `start`. -/
def placedItems (start : Nat) (ts : List Token) : List (PostfixItem × Nat) :=
  (ts.zipIdx start).filterMap fun entry => entry.1.item?.map fun item => (item, entry.2)

theorem placedItems_cons (start : Nat) (token : Token) (ts : List Token) :
    placedItems start (token :: ts) =
      (token.item?.map fun item => (item, start)).toList ++ placedItems (start + 1) ts := by
  cases token <;> rfl

/-- Whether an item may come before another: before a number only what stood before it. -/
def InTurn (earlier later : PostfixItem × Nat) : Prop :=
  later.1.isNumber → earlier.2 < later.2

theorem inTurn_of_operator {later : PostfixItem × Nat} (h : later.1.isNumber = false)
    (earlier : PostfixItem × Nat) : InTurn earlier later := by
  intro hnumber
  rw [h] at hnumber
  cases hnumber

/-- The items of a conversion under way with the places they were read at, released and waiting, both
newest first. -/
structure Placement (a : Arrangement) (source released waiting : List (PostfixItem × Nat)) : Prop where
  released_eq : released.map Prod.fst = a.released
  waiting_eq : waiting.map Prod.fst = a.waiting.filterMap waitingItem?
  perm : (released ++ waiting).Perm source
  inTurn : released.Pairwise fun later earlier => InTurn earlier later

namespace Placement

variable {a : Arrangement} {source released waiting : List (PostfixItem × Nat)}

theorem isNumber_of_waiting (h : Placement a source released waiting) :
    ∀ entry ∈ waiting, entry.1.isNumber = false := by
  intro entry hentry
  have hitem : entry.1 ∈ a.waiting.filterMap waitingItem? := by
    rw [← h.waiting_eq]
    exact List.mem_map_of_mem hentry
  obtain ⟨w, -, hw⟩ := List.mem_filterMap.mp hitem
  cases w with
  | operator op =>
      rw [← Option.some.inj hw]
      rfl
  | opening => cases hw

/-- Operators that go over from what waits to what is released take their places with them. -/
theorem move {ops : List Operator} {rest below : List Waiting}
    (h : Placement a source released waiting) (hwaiting : a.waiting = ops.map .operator ++ rest)
    (hbelow : below.filterMap waitingItem? = rest.filterMap waitingItem?) :
    ∃ released' kept, Placement ⟨(ops.map .operator).reverse ++ a.released, below⟩ source
      released' kept := by
  have hitems : waiting.map Prod.fst =
      ops.map PostfixItem.operator ++ rest.filterMap waitingItem? := by
    rw [h.waiting_eq, hwaiting, List.filterMap_append, filterMap_waitingItem?]
  obtain ⟨moved, kept, rfl, hmoved, hkept⟩ := List.map_eq_append_iff.mp hitems
  have hnone : ∀ entry ∈ moved.reverse, entry.1.isNumber = false := fun entry hentry =>
    h.isNumber_of_waiting entry (List.mem_append_left kept (List.mem_reverse.mp hentry))
  refine ⟨moved.reverse ++ released, kept, ?_, ?_, ?_, ?_⟩
  · rw [List.map_append, List.map_reverse, hmoved, h.released_eq]
  · rw [hkept, hbelow]
  · refine List.Perm.trans ?_ h.perm
    rw [← List.append_assoc]
    refine List.Perm.append_right kept ?_
    exact ((List.reverse_perm moved).append_right released).trans List.perm_append_comm
  · rw [List.pairwise_append]
    refine ⟨List.pairwise_of_forall_mem_list fun later hlater earlier _ => ?_, h.inTurn,
      fun later hlater earlier _ => ?_⟩
    · exact inTurn_of_operator (hnone later hlater) earlier
    · exact inTurn_of_operator (hnone later hlater) earlier

/-- One token adds its own item, at its own place, to what is released or to what waits. -/
theorem read (h : Placement a source released waiting) (token : Token) (place : Nat)
    (hplace : ∀ entry ∈ source, entry.2 < place) :
    ∃ released' waiting', Placement (a.read token)
      (source ++ (token.item?.map fun item => (item, place)).toList) released' waiting' := by
  cases token with
  | number x =>
      refine ⟨(.number x, place) :: released, waiting, ?_, h.waiting_eq, ?_, ?_⟩
      · rw [List.map_cons, h.released_eq, Arrangement.read]
      · exact (h.perm.cons _).trans (List.perm_append_singleton _ _).symm
      · refine List.pairwise_cons.mpr ⟨fun earlier hearlier _ => ?_, h.inTurn⟩
        exact hplace earlier (h.perm.subset (List.mem_append_left waiting hearlier))
  | operator op =>
      obtain ⟨ops, rest, hwaiting, -, -, hrelease⟩ := exists_release op.precedence a
      obtain ⟨released', kept, hmoved⟩ := h.move hwaiting rfl
      refine ⟨released', (.operator op, place) :: kept, ?_, ?_, ?_, hmoved.inTurn⟩
      · rw [hmoved.released_eq, Arrangement.read, hrelease]
      · rw [List.map_cons, hmoved.waiting_eq, Arrangement.read, hrelease]
        rfl
      · exact List.perm_middle.trans
          ((hmoved.perm.cons _).trans (List.perm_append_singleton _ _).symm)
  | opening =>
      refine ⟨released, waiting, h.released_eq, h.waiting_eq, ?_, h.inTurn⟩
      rw [Token.item?, Option.map_none, Option.toList_none, List.append_nil]
      exact h.perm
  | closing =>
      obtain ⟨ops, rest, hwaiting, hrest, hclose⟩ := exists_close a
      rw [Token.item?, Option.map_none, Option.toList_none, List.append_nil, Arrangement.read, hclose]
      exact h.move hwaiting (filterMap_tail hrest)

/-- All tokens of a list, the first of them standing at `place`. -/
theorem foldl_read (h : Placement a source released waiting) (ts : List Token) (place : Nat)
    (hplace : ∀ entry ∈ source, entry.2 < place) :
    ∃ released' waiting', Placement (ts.foldl Arrangement.read a)
      (source ++ placedItems place ts) released' waiting' := by
  induction ts generalizing a source released waiting place with
  | nil =>
      refine ⟨released, waiting, ?_⟩
      rw [placedItems, List.zipIdx_nil, List.filterMap_nil, List.append_nil]
      exact h
  | cons token ts ih =>
      obtain ⟨released', waiting', hread⟩ := h.read token place hplace
      rw [placedItems_cons, ← List.append_assoc]
      refine ih hread (place + 1) fun entry hentry => ?_
      rcases List.mem_append.mp hentry with hentry | hentry
      · exact Nat.lt_succ_of_lt (hplace entry hentry)
      · obtain ⟨item, -, rfl⟩ := Option.map_eq_some_iff.mp (Option.mem_toList.mp hentry)
        exact Nat.lt_succ_self place

/-- What still waits when all is read is no number, so it may follow. -/
theorem finish (h : Placement a source released waiting) :
    (released.reverse ++ waiting).map Prod.fst = a.finish ∧
      (released.reverse ++ waiting).Perm source ∧
      (released.reverse ++ waiting).Pairwise InTurn := by
  have hnone := h.isNumber_of_waiting
  refine ⟨?_, ((List.reverse_perm released).append_right waiting).trans h.perm, ?_⟩
  · rw [List.map_append, List.map_reverse, h.released_eq, h.waiting_eq, Arrangement.finish]
  · rw [List.pairwise_append]
    refine ⟨List.pairwise_reverse.mpr h.inTurn,
      List.pairwise_of_forall_mem_list fun earlier _ later hlater => ?_,
      fun earlier _ later hlater => ?_⟩
    · exact inTurn_of_operator (hnone later hlater) earlier
    · exact inTurn_of_operator (hnone later hlater) earlier

end Placement

/-- Nothing is lost on the way to postfix and nothing is made, whether parentheses match or not. The
numbers stay in order, the operators are those of the source, each as often, and every item can be
followed from its place in the source: whatever comes before a number stood before it there, so an
operator comes after all the numbers that precede it. -/
theorem ofTokens_conserves (ts : List Token) :
    (ofTokens ts).filter PostfixItem.isNumber = (itemsOf ts).filter PostfixItem.isNumber ∧
    ((ofTokens ts).filter fun item => !item.isNumber).Perm
      ((itemsOf ts).filter fun item => !item.isNumber) ∧
    ∃ placed : List (PostfixItem × Nat), placed.map Prod.fst = ofTokens ts ∧
      placed.Perm (placedItems 0 ts) ∧ placed.Pairwise InTurn := by
  refine ⟨numbers_ofTokens ts, (ofTokens_perm ts).filter _, ?_⟩
  have hempty : Placement .empty [] [] [] := ⟨rfl, rfl, List.Perm.refl [], List.Pairwise.nil⟩
  have hnone : ∀ entry ∈ ([] : List (PostfixItem × Nat)), entry.2 < 0 := by simp
  obtain ⟨released, waiting, hread⟩ := hempty.foldl_read ts 0 hnone
  exact ⟨released.reverse ++ waiting, hread.finish⟩

end Reckoner.Postfix
