import Reckoner.Proofs.InfixText

/-! The order in which an infix phrase is released. Reading the tokens of a phrase at some level leaves
on the stack of what waits only operators that bind at least as tightly as that level, above whatever
waited before; released in turn they complete the post-order of the phrase's tree (`read_phrase`). So
the text of a formula evaluates to the value of its tree, with the tree's steps (`evaluate_written`). -/

namespace Reckoner

/-- The tokens that write a tree at a place where an operation that binds less tightly than `level`
needs parentheses. -/
inductive Phrase : Nat → ExpressionTree → List Token → Prop
  | number {level : Nat} (x : Binary64) : Phrase level (.number x) [.number x]
  | operation {level : Nat} {left right : ExpressionTree} {op : Operator} {ts us : List Token} :
      level ≤ op.precedence → Phrase op.precedence left ts → Phrase (op.precedence + 1) right us →
      Phrase level (.operation left op right) (ts ++ .operator op :: us)
  | parenthesised {level : Nat} {t : ExpressionTree} {ts : List Token} :
      Phrase 0 t ts → Phrase level t (.opening :: ts ++ [.closing])

namespace Phrase

theorem ne_nil {level : Nat} {t : ExpressionTree} {ts : List Token} (h : Phrase level t ts) : ts ≠ [] := by
  cases h <;> simp

/-- A phrase stands wherever less tightly bound ones may. -/
theorem weaken {level lower : Nat} {t : ExpressionTree} {ts : List Token} (h : Phrase level t ts)
    (hle : lower ≤ level) : Phrase lower t ts := by
  cases h with
  | number x => exact .number x
  | operation hlevel hleft hright => exact .operation (Nat.le_trans hle hlevel) hleft hright
  | parenthesised hinner => exact .parenthesised hinner

end Phrase

namespace Formula.Written

open Lexeme (scan)

theorem ne_nil {level : Nat} {f : Formula} {cs : List Char} (h : Written level f cs) : cs ≠ [] := by
  cases h with
  | numeral n =>
      intro hnil
      exact n.whole.ne_nil (List.append_eq_nil_iff.1 hnil).1
  | _ => simp

theorem isAllowed_of_isDigit {c : Char} (h : c.isDigit = true) : Expression.isAllowed c = true := by
  rw [Expression.isAllowed, h, Bool.true_or]

theorem isAllowed {level : Nat} {f : Formula} {cs : List Char} (h : Written level f cs) :
    ∀ c ∈ cs, Expression.isAllowed c = true := by
  have hspace : Expression.isAllowed ' ' = true := by decide
  induction h with
  | numeral n =>
      intro c hc
      rcases List.mem_append.1 hc with hc | hc
      · exact isAllowed_of_isDigit (n.whole.isDigit_of_mem c hc)
      · cases hfraction : n.fraction with
        | none => simp [hfraction] at hc
        | some places =>
            rw [hfraction] at hc
            rcases List.mem_cons.1 hc with rfl | hc
            · decide
            · exact isAllowed_of_isDigit (places.isDigit_of_mem c hc)
  | @operation _ _ _ op _ _ _ _ _ ihl ihr =>
      intro c hc
      rcases List.mem_append.1 hc with hc | hc
      · exact ihl c hc
      · rcases List.mem_cons.1 hc with rfl | hc
        · cases op <;> decide
        · exact ihr c hc
  | parenthesised _ ih =>
      intro c hc
      rcases List.mem_append.1 hc with hc | hc
      · rcases List.mem_cons.1 hc with rfl | hc
        · decide
        · exact ih c hc
      · rw [List.mem_singleton.1 hc]
        decide
  | spaceBefore _ ih =>
      intro c hc
      rcases List.mem_cons.1 hc with rfl | hc
      · exact hspace
      · exact ih c hc
  | spaceAfter _ ih =>
      intro c hc
      rcases List.mem_append.1 hc with hc | hc
      · exact ih c hc
      · rw [List.mem_singleton.1 hc]
        exact hspace

/-- The tokens of a text that writes a formula are a phrase that writes its tree. -/
theorem phrase {level : Nat} {f : Formula} {cs : List Char} (h : Written level f cs) :
    Phrase level f.tree ((scan cs).map Lexeme.token) := by
  induction h with
  | numeral n =>
      rw [Lexeme.scan_numeral, List.map_singleton, Lexeme.token_numeral]
      exact .number n.value
  | @operation _ _ _ op cs ds hlevel _ _ ihl ihr =>
      rw [Lexeme.scan_append (Lexeme.apart_symbol op ds), Lexeme.scan_operator, List.map_append,
        List.map_cons]
      exact .operation hlevel ihl ihr
  | @parenthesised _ _ cs _ ih =>
      have hopening : Lexeme.ofSymbol? '(' = some .opening := rfl
      have hclosing : Lexeme.ofSymbol? ')' = some .closing := rfl
      rw [List.cons_append, Lexeme.scan_symbol hopening,
        Lexeme.scan_append (Lexeme.apart_of_symbol hclosing []), Lexeme.scan_symbol hclosing,
        Lexeme.scan, List.map_cons, List.map_append]
      exact .parenthesised ih
  | spaceBefore _ ih =>
      rw [Lexeme.scan_space]
      exact ih
  | spaceAfter _ ih =>
      rw [Lexeme.scan_append (Lexeme.apart_space []), Lexeme.scan_space, Lexeme.scan, List.append_nil]
      exact ih

end Formula.Written

namespace Postfix

/-- Nothing on top of what waits is released at a level. -/
def Settled (level : Nat) : List Waiting → Prop
  | .operator op :: _ => op.precedence < level
  | _ => True

theorem settled_nil (level : Nat) : Settled level [] :=
  trivial

theorem settled_opening (level : Nat) (waiting : List Waiting) :
    Settled level (.opening :: waiting) :=
  trivial

theorem release_of_settled {level : Nat} {waiting : List Waiting} (h : Settled level waiting)
    (released : List PostfixItem) : release level ⟨released, waiting⟩ = ⟨released, waiting⟩ := by
  match waiting, h with
  | [], _ => rw [release]; simp
  | .opening :: _, _ => rw [release]; simp
  | .operator op :: _, h => rw [release, if_neg (Nat.not_le.2 h)]

/-- Operators that wait, released from the top. -/
theorem release_operators {level : Nat} {ops : List Operator} {waiting : List Waiting}
    (hops : ∀ op ∈ ops, level ≤ op.precedence) (h : Settled level waiting)
    (released : List PostfixItem) :
    release level ⟨released, ops.map .operator ++ waiting⟩ =
      ⟨(ops.map .operator).reverse ++ released, waiting⟩ := by
  induction ops generalizing released with
  | nil => exact release_of_settled h released
  | cons op ops ih =>
      rw [List.map_cons, List.cons_append, release, if_pos (hops op List.mem_cons_self),
        ih fun op hop => hops op (List.mem_cons_of_mem _ hop)]
      simp

theorem close_operators {rest : List Waiting} (hrest : rest = [] ∨ ∃ below, rest = .opening :: below)
    (ops : List Operator) (released : List PostfixItem) :
    close ⟨released, ops.map .operator ++ rest⟩ =
      ⟨(ops.map .operator).reverse ++ released, rest.tail⟩ := by
  induction ops generalizing released with
  | nil =>
      rcases hrest with rfl | ⟨below, rfl⟩
      · rw [List.map_nil, List.nil_append, close]
        rfl
      · rw [List.map_nil, List.nil_append, close]
        rfl
  | cons op ops ih =>
      rw [List.map_cons, List.cons_append, close, ih]
      simp

/-- What a release does: the operators on top that bind tightly enough go over, and no more of them. -/
theorem exists_release (level : Nat) (a : Arrangement) :
    ∃ (ops : List Operator) (rest : List Waiting),
      a.waiting = ops.map .operator ++ rest ∧ (∀ op ∈ ops, level ≤ op.precedence) ∧
      Settled level rest ∧ release level a = ⟨(ops.map .operator).reverse ++ a.released, rest⟩ := by
  obtain ⟨released, waiting⟩ := a
  induction waiting generalizing released with
  | nil =>
      have hsettled := settled_nil level
      exact ⟨[], [], rfl, by simp, hsettled, release_of_settled hsettled released⟩
  | cons w waiting ih =>
      cases w with
      | opening =>
          have hsettled := settled_opening level waiting
          exact ⟨[], _, rfl, by simp, hsettled, release_of_settled hsettled released⟩
      | operator op =>
          by_cases hle : level ≤ op.precedence
          · obtain ⟨ops, rest, hwaiting, hops, hsettled, hrelease⟩ := ih (.operator op :: released)
            refine ⟨op :: ops, rest, congrArg _ hwaiting, List.forall_mem_cons.2 ⟨hle, hops⟩, hsettled, ?_⟩
            rw [release, if_pos hle, hrelease]
            simp
          · have hsettled : Settled level (.operator op :: waiting) := Nat.lt_of_not_le hle
            exact ⟨[], _, rfl, by simp, hsettled, release_of_settled hsettled released⟩

/-- What a closing parenthesis does: all operators down to the nearest opening one go over, and that one
goes. -/
theorem exists_close (a : Arrangement) :
    ∃ (ops : List Operator) (rest : List Waiting),
      a.waiting = ops.map .operator ++ rest ∧ (rest = [] ∨ ∃ below, rest = .opening :: below) ∧
      close a = ⟨(ops.map .operator).reverse ++ a.released, rest.tail⟩ := by
  obtain ⟨released, waiting⟩ := a
  induction waiting generalizing released with
  | nil => exact ⟨[], [], rfl, Or.inl rfl, close_operators (Or.inl rfl) [] released⟩
  | cons w waiting ih =>
      cases w with
      | opening =>
          have hrest : ∃ below, Waiting.opening :: waiting = .opening :: below := ⟨waiting, rfl⟩
          exact ⟨[], _, rfl, Or.inr hrest, close_operators (Or.inr hrest) [] released⟩
      | operator op =>
          obtain ⟨ops, rest, hwaiting, hrest, hclose⟩ := ih (.operator op :: released)
          refine ⟨op :: ops, rest, congrArg _ hwaiting, hrest, ?_⟩
          rw [close, hclose]
          simp

/-- Reading a phrase leaves operators above what waited, each at least as tight as the phrase's level;
with them the phrase's post-order is complete. -/
theorem read_phrase {level : Nat} {t : ExpressionTree} {ts : List Token} (h : Phrase level t ts)
    {waiting : List Waiting} (hsettled : Settled level waiting) (released : List PostfixItem) :
    ∃ (out : List PostfixItem) (ops : List Operator),
      ts.foldl Arrangement.read ⟨released, waiting⟩ = ⟨out, ops.map .operator ++ waiting⟩ ∧
      (∀ op ∈ ops, level ≤ op.precedence) ∧
      (ops.map .operator).reverse ++ out = t.postOrder.reverse ++ released := by
  induction h generalizing waiting released with
  | number x => exact ⟨.number x :: released, [], rfl, by simp, rfl⟩
  | @operation level left right op ts us hlevel _ _ ihl ihr =>
      have hbelow : Settled op.precedence waiting := by
        match waiting, hsettled with
        | [], _ => trivial
        | .opening :: _, _ => trivial
        | .operator other :: _, hother => exact Nat.lt_of_lt_of_le hother hlevel
      have habove : Settled (op.precedence + 1) (.operator op :: waiting) := Nat.lt_succ_self _
      obtain ⟨out, ops, hread, hops, hout⟩ := ihl hbelow released
      obtain ⟨out', ops', hread', hops', hout'⟩ := ihr habove ((ops.map .operator).reverse ++ out)
      refine ⟨out', ops' ++ [op], ?_, ?_, ?_⟩
      · rw [List.foldl_append, List.foldl_cons, hread, Arrangement.read, release_operators hops hbelow,
          hread']
        simp
      · intro other hother
        rcases List.mem_append.1 hother with hother | hother
        · exact Nat.le_trans hlevel (Nat.le_of_succ_le (hops' other hother))
        · rw [List.mem_singleton.1 hother]
          exact hlevel
      · rw [List.map_append, List.reverse_append, List.append_assoc, hout', hout]
        simp [ExpressionTree.postOrder]
  | @parenthesised level t ts _ ih =>
      obtain ⟨out, ops, hread, -, hout⟩ := ih (settled_opening 0 waiting) released
      refine ⟨(ops.map .operator).reverse ++ out, [], ?_, by simp, ?_⟩
      · have hinner : (Token.opening :: ts).foldl Arrangement.read ⟨released, waiting⟩ =
            ⟨out, ops.map .operator ++ .opening :: waiting⟩ := hread
        rw [List.foldl_append, hinner, List.foldl_cons, Arrangement.read,
          close_operators (Or.inr ⟨waiting, rfl⟩)]
        rfl
      · rw [hout]
        rfl

theorem filterMap_waitingItem? (ops : List Operator) :
    (ops.map Waiting.operator).filterMap Arrangement.waitingItem? = ops.map PostfixItem.operator := by
  rw [List.filterMap_map, ← List.filterMap_eq_map]
  rfl

theorem ofTokens_phrase {level : Nat} {t : ExpressionTree} {ts : List Token} (h : Phrase level t ts) :
    ofTokens ts = t.postOrder := by
  obtain ⟨out, ops, hread, -, hout⟩ := read_phrase h (settled_nil level) []
  rw [List.append_nil] at hread hout
  rw [ofTokens, Arrangement.empty, hread, Arrangement.finish, filterMap_waitingItem?,
    ← List.reverse_inj, ← hout]
  simp

end Postfix

namespace Expression

theorem validate_of_allowed {s : String} (hne : s.toList ≠ [])
    (h : ∀ c ∈ s.toList, isAllowed c = true) : validate s = .ok () := by
  rw [validate, if_pos ⟨hne, List.all_eq_true.2 h⟩]

theorem evaluate_of_not_allowed {s : String} (h : ¬(s.toList ≠ [] ∧ s.toList.all isAllowed = true)) :
    evaluate s = .error (.badCharacter s) := by
  have hvalid : validate s = .error (.badCharacter s) := if_neg h
  rw [evaluate, hvalid]
  rfl

theorem tokens_of_ne_nil {s : String} (h : (Lexeme.scan s.toList).map Lexeme.token ≠ []) :
    tokens s = .ok ((Lexeme.scan s.toList).map Lexeme.token) := by
  rw [tokens]
  split
  · next hnil => exact absurd hnil h
  · rfl

theorem evaluate_of_tokens {s : String} {ts : List Token} (hvalid : validate s = .ok ())
    (hts : tokens s = .ok ts) : evaluate s = Postfix.evaluate (Postfix.ofTokens ts) := by
  rw [evaluate, hvalid, hts]
  rfl

theorem exists_tokens_of_evaluate {s : String} {e : Evaluation} (h : evaluate s = .ok e) :
    validate s = .ok () ∧ ∃ ts, tokens s = .ok ts := by
  rw [evaluate] at h
  cases hvalid : validate s with
  | error err =>
      rw [hvalid] at h
      cases h
  | ok u =>
      cases hts : tokens s with
      | error err =>
          rw [hvalid, hts] at h
          cases h
      | ok ts => exact ⟨rfl, ts, rfl⟩

/-- An accepted text holds no character but those that expressions may hold. -/
theorem isAllowed_of_evaluate {s : String} {e : Evaluation} (h : evaluate s = .ok e) :
    ∀ c ∈ s.toList, isAllowed c = true := by
  have hvalid := (exists_tokens_of_evaluate h).1
  rw [validate] at hvalid
  split_ifs at hvalid with hallowed
  exact List.all_eq_true.1 hallowed.2

/-- A text that writes a formula evaluates to the value of its tree, with the operations of the tree
in post-order as its steps. -/
theorem evaluate_written {f : Formula} {s : String} (h : f.Written 0 s.toList) :
    evaluate s = .ok ⟨f.tree.value, f.tree.steps⟩ := by
  have hphrase := h.phrase
  rw [evaluate, validate_of_allowed h.ne_nil h.isAllowed, tokens_of_ne_nil hphrase.ne_nil]
  show Postfix.evaluate (Postfix.ofTokens _) = _
  rw [Postfix.ofTokens_phrase hphrase, Postfix.evaluate_postOrder]

theorem evaluate_written_parenthesised :
    let f : Formula := .operation
      (.operation (.numeral ⟨.ofNat 1, none⟩) .sub (.numeral ⟨.ofNat 2, none⟩)) .mul
      (.numeral ⟨.ofNat 3, some (.ofNat 5)⟩)
    f.Written 0 " (1 - 2)*3.5".toList ∧
      evaluate " (1 - 2)*3.5" = .ok ⟨f.tree.value, f.tree.steps⟩ := by
  intro f
  have hleft : Formula.Written 1 (.numeral ⟨.ofNat 1, none⟩) "1 ".toList :=
    .spaceAfter (.numeral _)
  have hright : Formula.Written 2 (.numeral ⟨.ofNat 2, none⟩) " 2".toList :=
    .spaceBefore (.numeral _)
  have hdifference : Formula.Written 0
      (.operation (.numeral ⟨.ofNat 1, none⟩) .sub (.numeral ⟨.ofNat 2, none⟩))
      ("1 ".toList ++ Operator.sub.symbol :: " 2".toList) :=
    .operation (by decide) hleft hright
  have hproduct : f.Written 0 ("(1 - 2)".toList ++ Operator.mul.symbol :: "3.5".toList) :=
    .operation (by decide) (.parenthesised hdifference) (.numeral _)
  have hwritten : f.Written 0 " (1 - 2)*3.5".toList := .spaceBefore hproduct
  exact ⟨hwritten, evaluate_written hwritten⟩

end Expression
end Reckoner
