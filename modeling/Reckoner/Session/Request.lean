import Reckoner.Session.Basic

/-! What can be asked of a desk, and the replies. -/

namespace Reckoner

inductive Request where
  | press (key : String)
  | toggleMode
  | calculate (expression : Option String)
  | applyFunction (name : String)
  | loadHistory
  | clearHistory
  /-- Lists the newest records of the history and leaves those in view as they are. -/
  | listStored (limit : Int)
  /-- Inserts a calculation into the history and leaves the records in view as they are. -/
  | insertStored (input result : String)
  /-- Puts a new session in the place of the present one. -/
  | restart (settings : Settings)
  deriving DecidableEq

inductive Reply where
  | input (text : String)
  | scientific (on : Bool)
  | evaluation (e : Option Evaluation)
  | records (rs : List Record)
  | record (r : Record)
  | count (n : Nat)
  | nothing
  deriving DecidableEq

namespace Desk

def replying {α : Type} (reply : α → Reply) (r : Desk × Except HistoryFault α) :
    Desk × Except HistoryFault Reply :=
  (r.1, r.2.map reply)

def perform [MathLibrary] (d : Desk) : Request → Desk × Except HistoryFault Reply
  | .press key =>
    let session := d.session.press key
    ({ d with session }, .ok (.input session.input))
  | .toggleMode =>
    let session := d.session.toggleMode
    ({ d with session }, .ok (.scientific session.scientific))
  | .calculate expression => replying .evaluation (d.calculate expression)
  | .applyFunction name => replying .evaluation (d.applyFunction name)
  | .loadHistory => replying .records d.loadHistory
  | .clearHistory => replying .count d.clearHistory
  | .listStored limit =>
    match History.recent d.world d.session.settings.historyPath limit with
    | (world, r) => ({ d with world }, r.map .records)
  | .insertStored input result =>
    match History.insert d.world d.session.settings.historyPath input result with
    | (world, r) => ({ d with world }, r.map .record)
  | .restart settings => ({ d with session := .new settings }, .ok .nothing)

end Desk

end Reckoner
