import Reckoner.History.Store

/-! Calls on the history, as values, and their answers, so that what a sequence of calls does to files
can be said. -/

namespace Reckoner.History

inductive Call where
  | insert (input result : String)
  | recent (limit : Int)
  | clear
  deriving DecidableEq, Repr

inductive Answer where
  | inserted (r : Record)
  | listed (rs : List Record)
  | cleared (count : Nat)
  deriving DecidableEq, Repr

def perform (w : World) (p : Path) : Call → World × Except HistoryFault Answer
  | .insert input result =>
    let (w, r) := insert w p input result
    (w, r.map .inserted)
  | .recent limit =>
    let (w, r) := recent w p limit
    (w, r.map .listed)
  | .clear =>
    let (w, r) := clear w p
    (w, r.map .cleared)

end Reckoner.History
