import Cartridge.Error
import Cartridge.Stmt.Json

/-! State machines that are stepped once a frame. -/
namespace Cartridge

namespace Machine

structure State where
  name : String
  onEnter : List Stmt := []
  onUpdate : List Stmt := []
  onExit : List Stmt := []
  deriving DecidableEq

namespace State

def handlers (s : State) : List Stmt := s.onEnter ++ s.onUpdate ++ s.onExit

def toJson (s : State) : Json :=
  .ofMembers
    [("name", .ofString s.name), ("on_enter", Stmt.listToJson s.onEnter),
      ("on_update", Stmt.listToJson s.onUpdate), ("on_exit", Stmt.listToJson s.onExit)]

def ofJson? (depth : Nat) (j : Json) : Option State :=
  Json.within depth fun depth => do
    let f ← j.fields? ["name", "on_enter", "on_update", "on_exit"]
    return ⟨← f.need "name" Json.text?, ← f.getD "on_enter" [] (Stmt.listOfJson? depth),
      ← f.getD "on_update" [] (Stmt.listOfJson? depth),
      ← f.getD "on_exit" [] (Stmt.listOfJson? depth)⟩

end State

/-- A change of state under a condition. -/
structure Transition where
  source : String
  target : String
  test : Expr
  deriving DecidableEq

namespace Transition

def toJson (t : Transition) : Json :=
  .ofMembers
    [("from", .ofString t.source), ("to", .ofString t.target), ("when", t.test.toJson)]

def ofJson? (depth : Nat) (j : Json) : Option Transition :=
  Json.within depth fun depth => do
    let f ← j.fields? ["from", "to", "when"]
    return ⟨← f.need "from" Json.text?, ← f.need "to" Json.text?,
      ← f.need "when" (Expr.ofJson? depth)⟩

end Transition

end Machine

/-- Transitions are tried in the order of declaration. -/
structure Machine where
  name : String
  initial : String
  states : List Machine.State
  transitions : List Machine.Transition := []
  deriving DecidableEq

namespace Machine

def stateIndex (m : Machine) (name : String) : Except Error Nat :=
  match m.states.findIdx? fun s => s.name = name with
  | some i => .ok i
  | none => .error (.unknown .state name)

/-- Every state that is named exists. -/
def validate (m : Machine) : Except Error Unit := do
  let _ ← m.stateIndex m.initial
  m.transitions.forM fun t => do
    let _ ← m.stateIndex t.source
    let _ ← m.stateIndex t.target

def toJson (m : Machine) : Json :=
  .ofMembers
    [("name", .ofString m.name), ("initial", .ofString m.initial),
      ("states", .arr (m.states.map State.toJson)),
      ("transitions", .arr (m.transitions.map Transition.toJson))]

def ofJson? (depth : Nat) (j : Json) : Option Machine :=
  Json.within depth fun depth => do
    let f ← j.fields? ["name", "initial", "states", "transitions"]
    return ⟨← f.need "name" Json.text?, ← f.need "initial" Json.text?,
      ← f.need "states" (Json.list? depth State.ofJson?),
      ← f.getD "transitions" [] (Json.list? depth Transition.ofJson?)⟩

end Machine

end Cartridge
