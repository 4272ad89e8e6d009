import Mathlib.Data.List.Perm.Basic
import Reckoner.Proofs.InfixArrangement
import Reckoner.Proofs.PostfixForest

/-! What the way from infix to postfix keeps, for tokens in any order. No number and no operator is
lost or made, and the numbers stay in order (`ofTokens_perm`, `numbers_ofTokens`). Parentheses that do
not match make no difference: a list of tokens has the postfix sequence that it has with an opening
parenthesis in front for each closing one without a partner, and with a closing one at the end for each
that is left open (`ofTokens_balanced`). -/

namespace Reckoner

/-- The item that a token becomes; a parenthesis becomes none. -/
def Token.item? : Token → Option PostfixItem
  | .number x => some (.number x)
  | .operator op => some (.operator op)
  | .opening | .closing => none

namespace Postfix

/-- The numbers and operators among tokens. -/
def itemsOf (ts : List Token) : List PostfixItem :=
  ts.filterMap Token.item?

theorem itemsOf_cons (token : Token) (ts : List Token) :
    itemsOf (token :: ts) = token.item?.toList ++ itemsOf ts := by
  cases token <;> rfl

namespace Arrangement

/-- The items of a conversion under way, released or not. -/
def contents (a : Arrangement) : List PostfixItem :=
  a.released ++ a.waiting.filterMap waitingItem?

end Arrangement

open Arrangement (contents waitingItem?)

/-- Operators that go over from what waits to what is released. -/
theorem contents_operators (ops : List Operator) (released : List PostfixItem) (rest : List Waiting) :
    (contents ⟨(ops.map .operator).reverse ++ released, rest⟩).Perm
      (contents ⟨released, ops.map .operator ++ rest⟩) := by
  simp only [contents, List.filterMap_append, filterMap_waitingItem?]
  rw [List.append_assoc]
  refine ((List.reverse_perm _).append_right _).trans ?_
  rw [← List.append_assoc, ← List.append_assoc]
  exact List.perm_append_comm.append_right _

theorem contents_release (level : Nat) (a : Arrangement) :
    (contents (release level a)).Perm (contents a) := by
  obtain ⟨ops, rest, hwaiting, -, -, hrelease⟩ := exists_release level a
  rw [hrelease]
  have hmoved := contents_operators ops a.released rest
  rw [← hwaiting] at hmoved
  exact hmoved

/-- The opening parenthesis that a closing one takes away is no item. -/
theorem filterMap_tail {rest : List Waiting} (h : rest = [] ∨ ∃ below, rest = .opening :: below) :
    rest.tail.filterMap waitingItem? = rest.filterMap waitingItem? := by
  rcases h with rfl | ⟨below, rfl⟩
  · rfl
  · rfl

theorem contents_close (a : Arrangement) : (contents (close a)).Perm (contents a) := by
  obtain ⟨ops, rest, hwaiting, hrest, hclose⟩ := exists_close a
  have hmoved := contents_operators ops a.released rest
  rw [← hwaiting] at hmoved
  rw [hclose, contents, filterMap_tail hrest]
  exact hmoved

theorem contents_read (a : Arrangement) (token : Token) :
    (contents (a.read token)).Perm (contents a ++ token.item?.toList) := by
  cases token with
  | number x =>
      simp only [Arrangement.read, contents, Token.item?, Option.toList_some, List.cons_append]
      exact List.perm_append_singleton _ _ |>.symm
  | operator op =>
      refine List.Perm.trans ?_ ((contents_release op.precedence a).append_right _)
      simp only [Arrangement.read, contents, Token.item?, Option.toList_some, List.filterMap_cons,
        waitingItem?, List.append_assoc]
      exact List.Perm.append_left _ (List.perm_append_singleton _ _).symm
  | opening =>
      rw [Token.item?, Option.toList_none, List.append_nil]
      exact List.Perm.refl _
  | closing =>
      rw [Token.item?, Option.toList_none, List.append_nil]
      exact contents_close a

theorem contents_foldl_read (ts : List Token) (a : Arrangement) :
    (contents (ts.foldl Arrangement.read a)).Perm (contents a ++ itemsOf ts) := by
  induction ts generalizing a with
  | nil => simp [itemsOf]
  | cons token ts ih =>
      rw [List.foldl_cons]
      refine (ih (a.read token)).trans ?_
      rw [itemsOf_cons, ← List.append_assoc]
      exact (contents_read a token).append_right _

/-- The postfix sequence has the numbers and operators that were read, each as often. -/
theorem ofTokens_perm (ts : List Token) : (ofTokens ts).Perm (itemsOf ts) := by
  have hcontents := contents_foldl_read ts .empty
  refine List.Perm.trans ?_ hcontents
  exact (List.reverse_perm _).append_right _

theorem surplus_eq_of_perm {items others : List PostfixItem} (h : items.Perm others) :
    surplus items = surplus others := by
  rw [surplus, surplus, numberCount, numberCount, operatorCount, operatorCount, h.countP_eq,
    h.countP_eq]

theorem numbers_waiting (waiting : List Waiting) :
    (waiting.filterMap waitingItem?).filter PostfixItem.isNumber = [] := by
  induction waiting with
  | nil => rfl
  | cons w waiting ih => cases w <;> simpa [waitingItem?, PostfixItem.isNumber] using ih

theorem numbers_operators (ops : List Operator) (released : List PostfixItem) :
    ((ops.map PostfixItem.operator).reverse ++ released).filter PostfixItem.isNumber =
      released.filter PostfixItem.isNumber := by
  have hnone : (ops.map PostfixItem.operator).reverse.filter PostfixItem.isNumber = [] := by
    simp [List.filter_eq_nil_iff, PostfixItem.isNumber]
  rw [List.filter_append, hnone, List.nil_append]

theorem numbers_read (a : Arrangement) (token : Token) :
    (a.read token).released.filter PostfixItem.isNumber =
      token.item?.toList.filter PostfixItem.isNumber ++
        a.released.filter PostfixItem.isNumber := by
  cases token with
  | number x => rfl
  | operator op =>
      obtain ⟨ops, rest, -, -, -, hrelease⟩ := exists_release op.precedence a
      simp only [Arrangement.read, hrelease]
      exact numbers_operators ops a.released
  | opening => rfl
  | closing =>
      obtain ⟨ops, rest, -, -, hclose⟩ := exists_close a
      simp only [Arrangement.read, hclose]
      exact numbers_operators ops a.released

theorem numbers_foldl_read (ts : List Token) (a : Arrangement) :
    (ts.foldl Arrangement.read a).released.filter PostfixItem.isNumber =
      ((itemsOf ts).filter PostfixItem.isNumber).reverse ++
        a.released.filter PostfixItem.isNumber := by
  induction ts generalizing a with
  | nil => rfl
  | cons token ts ih =>
      have hsingle : (token.item?.toList.filter PostfixItem.isNumber).reverse =
          token.item?.toList.filter PostfixItem.isNumber := by
        cases token <;> rfl
      rw [List.foldl_cons, ih, numbers_read, itemsOf_cons, List.filter_append, List.reverse_append,
        hsingle, List.append_assoc]

theorem numbers_ofTokens (ts : List Token) :
    (ofTokens ts).filter PostfixItem.isNumber = (itemsOf ts).filter PostfixItem.isNumber := by
  have hread := numbers_foldl_read ts .empty
  rw [Arrangement.empty, List.filter_nil, List.append_nil] at hread
  rw [ofTokens, Arrangement.finish, List.filter_append, numbers_waiting, List.append_nil,
    List.filter_reverse, Arrangement.empty, hread, List.reverse_reverse]

/-- How many closing parentheses have no partner, with `depth` opening ones still open. -/
def unmatchedClosings : Nat → List Token → Nat
  | _, [] => 0
  | depth, .opening :: ts => unmatchedClosings (depth + 1) ts
  | 0, .closing :: ts => unmatchedClosings 0 ts + 1
  | depth + 1, .closing :: ts => unmatchedClosings depth ts
  | depth, .number _ :: ts => unmatchedClosings depth ts
  | depth, .operator _ :: ts => unmatchedClosings depth ts

/-- How many opening parentheses are open at the end, with `depth` of them open at the beginning. -/
def unmatchedOpenings : Nat → List Token → Nat
  | depth, [] => depth
  | depth, .opening :: ts => unmatchedOpenings (depth + 1) ts
  | depth, .closing :: ts => unmatchedOpenings (depth - 1) ts
  | depth, .number _ :: ts => unmatchedOpenings depth ts
  | depth, .operator _ :: ts => unmatchedOpenings depth ts

/-- Tokens with opening parentheses in front and closing ones at the end. -/
def enclosed (openings closings : Nat) (ts : List Token) : List Token :=
  List.replicate openings .opening ++ ts ++ List.replicate closings .closing

/-- Tokens with a partner for every parenthesis that has none. -/
def balanced (ts : List Token) : List Token :=
  enclosed (unmatchedClosings 0 ts) (unmatchedOpenings 0 ts) ts

theorem finish_close (a : Arrangement) : (close a).finish = a.finish := by
  obtain ⟨ops, rest, hwaiting, hrest, hclose⟩ := exists_close a
  rw [hclose, Arrangement.finish, Arrangement.finish, hwaiting, List.filterMap_append,
    filterMap_waitingItem?, filterMap_tail hrest, List.reverse_append, List.reverse_reverse,
    List.append_assoc]

theorem finish_closings (count : Nat) (a : Arrangement) :
    ((List.replicate count Token.closing).foldl Arrangement.read a).finish = a.finish := by
  induction count generalizing a with
  | zero => rfl
  | succ count ih =>
      rw [List.replicate_succ, List.foldl_cons, ih]
      exact finish_close a

/-- A conversion with opening parentheses below all that waits. -/
def Arrangement.onOpenings (a : Arrangement) (count : Nat) : Arrangement :=
  { a with waiting := a.waiting ++ List.replicate count .opening }

theorem Settled.append_openings {level : Nat} {rest : List Waiting} (h : Settled level rest)
    (count : Nat) : Settled level (rest ++ List.replicate count .opening) := by
  cases rest with
  | nil => cases count <;> trivial
  | cons w rest => cases w <;> exact h

theorem release_onOpenings (level count : Nat) (a : Arrangement) :
    release level (a.onOpenings count) = (release level a).onOpenings count := by
  obtain ⟨ops, rest, hwaiting, hops, hsettled, hrelease⟩ := exists_release level a
  rw [hrelease, Arrangement.onOpenings, hwaiting, List.append_assoc]
  exact release_operators hops (hsettled.append_openings count) a.released

/-- A closing parenthesis may take one of the opening ones below with it. -/
theorem exists_close_onOpenings (count : Nat) (a : Arrangement) :
    ∃ left, close (a.onOpenings count) = (close a).onOpenings left := by
  obtain ⟨ops, rest, hwaiting, hrest, hclose⟩ := exists_close a
  rw [hclose, Arrangement.onOpenings, hwaiting, List.append_assoc]
  rcases hrest with rfl | ⟨below, rfl⟩
  · have hbelow : [] ++ List.replicate count Waiting.opening = [] ∨
        ∃ below, [] ++ List.replicate count Waiting.opening = .opening :: below := by
      cases count with
      | zero => exact Or.inl rfl
      | succ count => exact Or.inr ⟨List.replicate count .opening, rfl⟩
    refine ⟨count - 1, (close_operators hbelow ops a.released).trans ?_⟩
    rw [Arrangement.onOpenings, List.nil_append, List.tail_replicate]
    rfl
  · exact ⟨count, close_operators (Or.inr ⟨_, rfl⟩) ops a.released⟩

theorem exists_read_onOpenings (count : Nat) (a : Arrangement) (token : Token) :
    ∃ left, (a.onOpenings count).read token = (a.read token).onOpenings left := by
  cases token with
  | number x => exact ⟨count, rfl⟩
  | operator op =>
      refine ⟨count, ?_⟩
      simp only [Arrangement.read, release_onOpenings]
      rfl
  | opening => exact ⟨count, rfl⟩
  | closing => exact exists_close_onOpenings count a

theorem exists_foldl_read_onOpenings (count : Nat) (a : Arrangement) (ts : List Token) :
    ∃ left, ts.foldl Arrangement.read (a.onOpenings count) =
      (ts.foldl Arrangement.read a).onOpenings left := by
  induction ts generalizing count a with
  | nil => exact ⟨count, rfl⟩
  | cons token ts ih =>
      obtain ⟨left, hleft⟩ := exists_read_onOpenings count a token
      rw [List.foldl_cons, List.foldl_cons, hleft]
      exact ih left (a.read token)

theorem finish_onOpenings (a : Arrangement) (count : Nat) :
    (a.onOpenings count).finish = a.finish := by
  have hopenings : (List.replicate count Waiting.opening).filterMap waitingItem? = [] := by
    induction count with
    | zero => rfl
    | succ count ih => exact ih
  rw [Arrangement.finish, Arrangement.onOpenings, List.filterMap_append, hopenings, List.append_nil,
    Arrangement.finish]

theorem foldl_read_openings (count : Nat) (a : Arrangement) :
    (List.replicate count Token.opening).foldl Arrangement.read a =
      { a with waiting := List.replicate count .opening ++ a.waiting } := by
  induction count generalizing a with
  | zero => rfl
  | succ count ih =>
      rw [List.replicate_succ, List.foldl_cons, ih, Arrangement.read, List.replicate_succ']
      simp

/-- Opening parentheses in front and closing ones at the end change nothing of the postfix sequence,
however many there are: those in front stay below all that waits, and those at the end release in its
order what would be released anyway. -/
theorem ofTokens_enclosed (openings closings : Nat) (ts : List Token) :
    ofTokens (enclosed openings closings ts) = ofTokens ts := by
  obtain ⟨left, hleft⟩ := exists_foldl_read_onOpenings openings .empty ts
  have hopenings : (List.replicate openings Token.opening).foldl Arrangement.read .empty =
      Arrangement.empty.onOpenings openings := by
    rw [foldl_read_openings, Arrangement.onOpenings, Arrangement.empty, List.append_nil,
      List.nil_append]
  rw [ofTokens, enclosed, List.foldl_append, List.foldl_append, finish_closings, hopenings, hleft,
    finish_onOpenings, ofTokens]

/-- Partners for the parentheses that have none change nothing of the postfix sequence. -/
theorem ofTokens_balanced (ts : List Token) : ofTokens (balanced ts) = ofTokens ts :=
  ofTokens_enclosed (unmatchedClosings 0 ts) (unmatchedOpenings 0 ts) ts

end Postfix
end Reckoner
