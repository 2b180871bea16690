import Cartridge.Physics.Body

/-! The physics of a running game, frame by frame. -/
namespace Cartridge.Physics

def BodyDef.checkClamp (b : BodyDef) (axis : Axis) (limit : Fixed) : Except Error Unit :=
  if limit.raw < 0 then .error (.invalid (.bodyClamp b.entity axis limit)) else .ok ()

def BodyDef.validate (b : BodyDef) : Except Error Unit := do
  if b.mass = 0 then .error (.invalid (.bodyMassless b.entity))
  b.checkClamp .x b.maxVx
  b.checkClamp .y b.maxVy

namespace World

def validate (w : World) : Except Error Unit := w.bodies.forM BodyDef.validate

def body? (w : World) (entity : String) : Option BodyDef :=
  w.bodies.find? fun b => b.entity = entity

/-- The gravity at a point: that of the first zone around it, or else the world's. -/
def gravityAt (w : World) (x y : Int16) : Fixed :=
  ((w.zones.find? fun z => z.contains x y).map Zone.gravity).getD w.gravity

end World

/-- Two overlapping bodies, by the place of their pair and their slots. -/
structure Hit where
  pair : Nat
  a : Nat
  b : Nat
  deriving DecidableEq, Repr

structure Simulation where
  world : World
  /-- One body for each slot of the instance table. -/
  bodies : Array Body
  deriving DecidableEq

namespace Simulation

/-- An instance at rest. Slots of pools are free at first. -/
def bodyOf (w : World) (i : Instance) : Body :=
  let body := w.body? i.entity
  { x := i.x
    y := i.y
    vx := 0
    vy := 0
    width := i.width
    height := i.height
    tag := i.tag
    mass := (body.map BodyDef.mass).getD 0
    friction := (body.bind BodyDef.friction).getD w.friction
    maxVx := (body.map BodyDef.maxVx).getD .greatest
    maxVy := (body.map BodyDef.maxVy).getD .greatest
    active := i.pool.isNone }

def ofGame (g : Game) : Except Error Simulation := do
  let world := g.physics.getD {}
  world.validate
  return ⟨world, (g.instances.map (bodyOf world)).toArray⟩

def integrateBody (w : World) (b : Body) : Body :=
  if b.active && b.mass ≠ 0 then b.advance (w.gravityAt b.x b.y) else b

def integrate (s : Simulation) : Simulation :=
  { s with bodies := s.bodies.map (integrateBody s.world) }

def slots (bodies : Array Body) (tag : String) : List Nat :=
  (List.range bodies.size).filter fun i => bodies[i]?.any fun b => b.carries tag

/-- The slots a pair compares, in the order it does. Under one tag each two are compared once. -/
def candidates (bodies : Array Body) (p : Pair) : List (Nat × Nat) :=
  let seconds := slots bodies p.tagB
  (slots bodies p.tagA).flatMap fun a =>
    (seconds.filter fun b => if p.tagA = p.tagB then a < b else a ≠ b).map fun b => (a, b)

/-- Compares slots in order. Overlapping bodies are hits, and a solid pair pushes them apart at
once, so later comparisons see where they went. -/
def visit (coefficient : Fixed) (solid : Bool) :
    List (Nat × Nat) → Array Body → Array Body × List (Nat × Nat)
  | [], bodies => (bodies, [])
  | (a, b) :: rest, bodies =>
    match bodies[a]?, bodies[b]? with
    | some x, some y =>
      if x.box.overlaps y.box then
        let (x, y) := if solid then Body.separate coefficient x y else (x, y)
        let (bodies, hits) :=
          visit coefficient solid rest ((bodies.setIfInBounds a x).setIfInBounds b y)
        (bodies, (a, b) :: hits)
      else visit coefficient solid rest bodies
    | _, _ => visit coefficient solid rest bodies

def collidePairs (coefficient : Fixed) (place : Nat) :
    List Pair → Array Body → Array Body × List Hit
  | [], bodies => (bodies, [])
  | p :: rest, bodies =>
    let (bodies, hits) := visit coefficient p.solid (candidates bodies p) bodies
    let (bodies, later) := collidePairs coefficient (place + 1) rest bodies
    (bodies, hits.map (fun (a, b) => ⟨place, a, b⟩) ++ later)

def collide (s : Simulation) : Simulation × List Hit :=
  let (bodies, hits) := collidePairs s.world.bounce 0 s.world.pairs s.bodies
  ({ s with bodies }, hits)

def step (s : Simulation) : Simulation × List Hit := s.integrate.collide

def run (s : Simulation) : Nat → Simulation × List (List Hit × Array Body)
  | 0 => (s, [])
  | n + 1 =>
    let (s, hits) := s.step
    let (last, frames) := s.run n
    (last, (hits, s.bodies) :: frames)

def modify? (s : Simulation) (slot : Nat) (f : Body → Body) : Option Simulation :=
  if slot < s.bodies.size then some { s with bodies := s.bodies.modify slot f } else none

end Simulation

end Cartridge.Physics
