import Reckoner.Expression.Evaluation

/-! Expression trees: what an expression means apart from how it is written. The value of a tree is
found from the leaves up, its steps are its operations in post-order, and evaluating its post-order
gives both (`evaluate_postOrder`). -/

namespace Reckoner

/-- An expression as a tree of operations on numbers. -/
inductive ExpressionTree where
  | number (x : Binary64)
  | operation (left : ExpressionTree) (op : Operator) (right : ExpressionTree)
  deriving DecidableEq

namespace ExpressionTree

def value : ExpressionTree → Binary64
  | number x => x
  | operation l op r => op.apply l.value r.value

/-- The operations, the left part's first, then the right part's and the root's own. -/
def steps : ExpressionTree → List Step
  | number _ => []
  | operation l op r =>
    l.steps ++ r.steps ++ [.operation l.value op r.value (op.apply l.value r.value)]

/-- The numbers and operators, each operator after both of its parts. -/
def postOrder : ExpressionTree → List PostfixItem
  | number x => [.number x]
  | operation l op r => l.postOrder ++ r.postOrder ++ [.operator op]

end ExpressionTree

namespace Postfix

/-- The post-order of a tree puts the tree's value on the stack and adds the tree's steps. -/
theorem Machine.run_postOrder (t : ExpressionTree) (m : Machine) (rest : List PostfixItem) :
    m.run (t.postOrder ++ rest)
      = Machine.run ⟨t.value :: m.stack, t.steps.reverse ++ m.steps⟩ rest := by
  induction t generalizing m rest with
  | number x => rfl
  | operation l op r ihl ihr =>
    simp only [ExpressionTree.postOrder, List.append_assoc, ihl, ihr]
    simp [Machine.run, Machine.execute, ExpressionTree.value, ExpressionTree.steps]

theorem evaluate_postOrder (t : ExpressionTree) :
    evaluate t.postOrder = .ok ⟨t.value, t.steps⟩ := by
  have h := Machine.run_postOrder t ⟨[], []⟩ []
  simp only [List.append_nil, Machine.run] at h
  simp [evaluate, h]

end Postfix

end Reckoner
