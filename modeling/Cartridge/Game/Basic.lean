import Cartridge.Cutscene.Timeline
import Cartridge.Game.Entity
import Cartridge.Game.Variable
import Cartridge.Json.Printer
import Cartridge.Machine.Basic
import Cartridge.Nav.Grid
import Cartridge.Physics.World
import Cartridge.Save.Schema
import Cartridge.Scene.Basic

/-! Whole games, looking things up in them, and their JSON form. -/
namespace Cartridge

structure Game where
  name : String
  scalars : List Variable := []
  arrays : List ArrayDecl := []
  entities : List Entity := []
  pools : List Pool := []
  scenes : List Scene := []
  initialScene : Option String := none
  machines : List Machine := []
  physics : Option Physics.World := none
  maps : List Nav.Map := []
  save : Option Save.Schema := none
  cutscenes : List Cutscene := []
  /-- Settings of parts this library does not know, in the order of their keys. -/
  extensions : List (String × Json.Value) := []
  deriving DecidableEq

namespace Game

def scalar? (g : Game) (name : String) : Option Variable :=
  g.scalars.find? fun v => v.name = name

def array? (g : Game) (name : String) : Option ArrayDecl :=
  g.arrays.find? fun a => a.name = name

def entity? (g : Game) (name : String) : Option Entity :=
  g.entities.find? fun e => e.name = name

def scene? (g : Game) (name : String) : Option Scene :=
  g.scenes.find? fun s => s.name = name

/-- The domain of a variable, or else of an array. -/
def domain? (g : Game) (name : String) : Option Domain :=
  ((g.scalar? name).map (·.type.domain)).or ((g.array? name).map (·.type.domain))

def startScene? (g : Game) : Option String :=
  g.initialScene.or (g.scenes.head?.map Scene.name)

def isPoolTemplate (g : Game) (entity : String) : Bool :=
  g.pools.any fun p => p.entity = entity

def distinct (names : List String) : List String :=
  names.foldl (fun seen n => if seen.contains n then seen else seen ++ [n]) []

def tags (g : Game) : List String := distinct (g.entities.map Entity.tag)

def withExtension (g : Game) (key : String) (v : Json.Value) : Game :=
  { g with extensions := Json.Value.insert key v g.extensions }

def toJson (g : Game) : Json :=
  .ofMembers
    ([("name", .ofString g.name), ("variables", .arr (g.scalars.map Variable.toJson)),
        ("arrays", .arr (g.arrays.map ArrayDecl.toJson)),
        ("entities", .arr (g.entities.map Entity.toJson)),
        ("pools", .arr (g.pools.map Pool.toJson)), ("scenes", .arr (g.scenes.map Scene.toJson))]
      ++ Json.member? "initial_scene" (g.initialScene.map .ofString)
      ++ [("state_machines", .arr (g.machines.map Machine.toJson))]
      ++ Json.member? "physics" (g.physics.map Physics.World.toJson)
      ++ [("nav_grids", .arr (g.maps.map Nav.Map.toJson))]
      ++ Json.member? "save" (g.save.map Save.Schema.toJson)
      ++ [("cutscenes", .arr (g.cutscenes.map Cutscene.toJson)),
        ("extensions", (Json.Value.obj g.extensions).toJson)])

def extensionsOfJson? (depth : Nat) (j : Json) : Option (List (String × Json.Value)) :=
  match Json.Value.ofJson? depth j with
  | some (.obj members) => some members
  | _ => none

def ofJson? (depth : Nat) (j : Json) : Option Game :=
  Json.within depth fun depth => do
    let f ← j.fields? ["name", "variables", "arrays", "entities", "pools", "scenes",
      "initial_scene", "state_machines", "physics", "nav_grids", "save", "cutscenes",
      "extensions"]
    return {
      name := ← f.need "name" Json.text?
      scalars := ← f.getD "variables" [] (Json.list? depth Variable.ofJson?)
      arrays := ← f.getD "arrays" [] (Json.list? depth ArrayDecl.ofJson?)
      entities := ← f.getD "entities" [] (Json.list? depth Entity.ofJson?)
      pools := ← f.getD "pools" [] (Json.list? depth Pool.ofJson?)
      scenes := ← f.getD "scenes" [] (Json.list? depth Scene.ofJson?)
      initialScene := ← f.get? "initial_scene" Json.text?
      machines := ← f.getD "state_machines" [] (Json.list? depth Machine.ofJson?)
      physics := ← f.get? "physics" (Physics.World.ofJson? depth)
      maps := ← f.getD "nav_grids" [] (Json.list? depth Nav.Map.ofJson?)
      save := ← f.get? "save" (Save.Schema.ofJson? depth)
      cutscenes := ← f.getD "cutscenes" [] (Json.list? depth Cutscene.ofJson?)
      extensions := ← f.getD "extensions" [] (extensionsOfJson? depth) }

/-- Reads a game without checking the layout of its save data. -/
def decode (j : Json) : Except (Halt Error) Game :=
  match ofJson? Json.depthLimit j with
  | some g => .ok g
  | none => .error (.error (.invalid .document))

def load (j : Json) : Except (Halt Error) Game := do
  let g ← decode j
  match g.save with
  | some s => s.validate
  | none => .ok ()
  return g

def parse (text : String) : Except (Halt Error) Game :=
  match Json.parse? text with
  | some j => load j
  | none => .error (.error (.invalid .document))

def print (g : Game) : String := g.toJson.pretty

end Game

end Cartridge
