import Cartridge.Game.Basic

/-! Putting a game together declaration by declaration. -/
namespace Cartridge

namespace Physics

def Pair.solidBetween (tagA tagB : String) : Pair := { tagA, tagB }

def Pair.trigger (tagA tagB : String) (onHit : List Stmt) : Pair :=
  { tagA, tagB, solid := false, onHit }

end Physics

namespace Game

inductive Declaration where
  | scalar (v : Variable)
  | array (a : ArrayDecl)
  | entity (e : Entity)
  | pool (p : Pool)
  | scene (s : Scene)
  /-- The scene to begin in. -/
  | start (scene : String)
  | machine (m : Machine)
  | physics (w : Physics.World)
  | map (m : Nav.Map)
  | save (p : Save.Plan)
  | cutscene (c : Cutscene)
  | extension (key : String) (v : Json.Value)

/-- Adds a declaration. Of those there can only be one of, the last counts. -/
def declare (g : Game) : Declaration → Except (Halt Error) Game
  | .scalar v => .ok { g with scalars := g.scalars ++ [v] }
  | .array a => .ok { g with arrays := g.arrays ++ [a] }
  | .entity e => .ok { g with entities := g.entities ++ [e] }
  | .pool p => .ok { g with pools := g.pools ++ [p] }
  | .scene s => .ok { g with scenes := g.scenes ++ [s] }
  | .start scene => .ok { g with initialScene := some scene }
  | .machine m => .ok { g with machines := g.machines ++ [m] }
  | .physics w => .ok { g with physics := some w }
  | .map m => .ok { g with maps := g.maps ++ [m] }
  | .save p => p.build.map fun s => { g with save := some s }
  | .cutscene c => .ok { g with cutscenes := g.cutscenes ++ [c] }
  | .extension key v => .ok (g.withExtension key v)

def ofDeclarations (name : String) (declarations : List Declaration) : Except (Halt Error) Game :=
  declarations.foldlM declare { name }

end Game

end Cartridge
