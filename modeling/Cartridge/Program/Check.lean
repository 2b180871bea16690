import Cartridge.Cutscene.Emit
import Cartridge.Lower.Stmt

/-!
Checks of a whole game. A broken rule is noted where the generated file would be affected, and the
checks go on, so that one run reports all of them.
-/
namespace Cartridge.Program.Check

open Code Code.Emission Lower

def maxInstances : Nat := 40

def maxFrames : Nat := 65535

def report (rule : Rule) (message : String) : Emission Unit := problem rule message none

def scenes (g : Game) : Emission Unit := do
  enter .sceneEnum
  if g.scenes.isEmpty then report .noScenes "the game declares no scenes"
  match g.initialScene with
  | some name =>
    if (g.scene? name).isNone then
      report .unknownInitialScene s!"initial scene '{name}' is not declared"
  | none => return ()

/-- The names that occur again, each where it does so first, behind those already seen. -/
def repeatedAfter (seen : List String) : List String → List String
  | [] => []
  | name :: rest =>
    if seen.count name = 1 then name :: repeatedAfter (name :: seen) rest
    else repeatedAfter (name :: seen) rest

def repeated (names : List String) : List String := repeatedAfter [] names

def distinct (kind : String) (names : List String) : Emission Unit :=
  each (fun name => report .duplicateName s!"duplicate {kind} name '{name}'") (repeated names)

def names (g : Game) : Emission Unit := do
  enter .globals
  distinct "variable" (g.scalars.map Variable.name ++ g.arrays.map ArrayDecl.name)
  distinct "scene" (g.scenes.map Scene.name)
  distinct "entity" (g.entities.map Entity.name)
  distinct "pool" (g.pools.map Pool.name)
  distinct "state machine" (g.machines.map Machine.name)
  each (fun m => distinct "state" (m.states.map Machine.State.name)) g.machines
  distinct "cutscene" (g.cutscenes.map Cutscene.name)
  distinct "navigation grid" (g.maps.map Nav.Map.name)

def pool (g : Game) (p : Pool) : Emission Unit :=
  if (g.entity? p.entity).isNone then
    report .unknownEntity s!"pool '{p.name}' spawns unknown entity '{p.entity}'"
  else return ()

def entities (g : Game) : Emission Unit := do
  enter .poolData
  each (pool g) g.pools
  let count := g.instances.length
  if maxInstances < count then
    report .entityLimit s!"{count} entity instances exceed the limit of {maxInstances}"

def body (g : Game) (b : Physics.BodyDef) : Emission Unit :=
  if (g.entity? b.entity).isNone then
    report .unknownEntity s!"physics body for unknown entity '{b.entity}'"
  else if (g.instancesOf b.entity).isEmpty then
    report .bodyWithoutInstances s!"physics body '{b.entity}' has no instances"
  else return ()

def pairTag (g : Game) (p : Physics.Pair) (tag : String) : Emission Unit :=
  if g.hasTag tag then return ()
  else report .tagWithoutEntities
    s!"collision pair '{p.tagA}'/'{p.tagB}': no entity is tagged '{tag}'"

def pair (g : Game) (p : Physics.Pair) : Emission Unit := do
  pairTag g p p.tagA
  pairTag g p p.tagB

def physics (g : Game) : Emission Unit :=
  match g.physics with
  | some w => do
    enter .physicsFunctions
    each (body g) w.bodies
    each (pair g) w.pairs
  | none => return ()

/-- Some tile of a grid must be walkable. Counting faults if the grid holds too few bits. -/
def map (m : Nav.Map) : Emission Unit := do
  let count ← ofOption m.grid.walkableCount?
  if count = 0 then
    report .gridNotWalkable s!"navigation grid '{m.name}' has no walkable tile"

def navigation (g : Game) : Emission Unit := do
  enter .navigation
  each map g.maps

def cutscene (c : Cutscene) : Emission Unit := do
  ofOption (if c.duration < Cutscene.Emit.frameLimit then some () else none)
  if maxFrames < c.duration then
    report .timelineTooLong
      s!"cutscene '{c.name}' lasts {c.duration} frames, at most {maxFrames} are supported"

def cutscenes (g : Game) : Emission Unit := do
  enter .cutsceneFunctions
  each cutscene g.cutscenes

def emit (s : Scope) : Emission Unit := do
  scenes s.game
  names s.game
  entities s.game
  physics s.game
  navigation s.game
  cutscenes s.game

end Cartridge.Program.Check
