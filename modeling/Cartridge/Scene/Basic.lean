import Cartridge.Stmt.Json

/-! Scenes and what they do when entered, each frame, and when left. -/
namespace Cartridge

structure Scene where
  name : String
  onEnter : List Stmt := []
  onFrame : List Stmt := []
  onExit : List Stmt := []
  deriving DecidableEq

namespace Scene

def handlers (s : Scene) : List Stmt := s.onEnter ++ s.onFrame ++ s.onExit

def toJson (s : Scene) : Json :=
  .ofMembers
    [("name", .ofString s.name), ("on_enter", Stmt.listToJson s.onEnter),
      ("on_frame", Stmt.listToJson s.onFrame), ("on_exit", Stmt.listToJson s.onExit)]

def ofJson? (depth : Nat) (j : Json) : Option Scene :=
  Json.within depth fun depth => do
    let f ← j.fields? ["name", "on_enter", "on_frame", "on_exit"]
    return ⟨← f.need "name" Json.text?, ← f.getD "on_enter" [] (Stmt.listOfJson? depth),
      ← f.getD "on_frame" [] (Stmt.listOfJson? depth),
      ← f.getD "on_exit" [] (Stmt.listOfJson? depth)⟩

end Scene

end Cartridge
