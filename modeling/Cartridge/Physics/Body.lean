import Cartridge.Error
import Cartridge.Game.Instance

/-! Bodies on the move: boxes, overlap, and how two overlapping bodies are pushed apart. -/
namespace Cartridge.Physics

/-- A rectangle of pixels. -/
structure Box where
  x : Int16
  y : Int16
  width : UInt8
  height : UInt8
  deriving DecidableEq, Repr

/-- Boxes overlap if they share area; touching edges do not count. -/
def Box.overlaps (a b : Box) : Bool :=
  a.x.toInt < b.x.toInt + b.width.toNat && b.x.toInt < a.x.toInt + a.width.toNat
    && a.y.toInt < b.y.toInt + b.height.toNat && b.y.toInt < a.y.toInt + a.height.toNat

/-- An instance of the running game. Velocities are raw fixed-point numbers. -/
structure Body where
  x : Int16
  y : Int16
  vx : Int16
  vy : Int16
  width : UInt8
  height : UInt8
  tag : String
  /-- Zero for an obstacle, which nothing moves. -/
  mass : UInt8
  friction : Fixed
  maxVx : Fixed
  maxVy : Fixed
  active : Bool
  deriving DecidableEq, Repr

def wholeRatio : Nat := 256

/-- The parts of an overlap two bodies move by. The lighter one moves more, an obstacle not at
all. -/
def separationRatios (a b : UInt8) : Option (Nat × Nat) :=
  if a = 0 then if b = 0 then none else some (0, wholeRatio)
  else if b = 0 then some (wholeRatio, 0)
  else
    let total := a.toNat + b.toNat
    some (b.toNat * wholeRatio / total, a.toNat * wholeRatio / total)

/-- The velocity after a bounce. A body that moved less than half the overlap keeps
proportionally less. -/
def bounce (v : Int16) (coefficient : Fixed) (ratio : Nat) : Int16 :=
  let kept := v.toInt * coefficient.raw.toInt / 256
  .ofInt (-(kept * (min (ratio * 2) wholeRatio : Nat) / 256))

def clamp (low high v : Int16) : Int16 := if v < low then low else if high < v then high else v

namespace Body

def box (b : Body) : Box := ⟨b.x, b.y, b.width, b.height⟩

def position (b : Body) : Axis → Int16
  | .x => b.x
  | .y => b.y

def velocity (b : Body) : Axis → Int16
  | .x => b.vx
  | .y => b.vy

def extent (b : Body) : Axis → UInt8
  | .x => b.width
  | .y => b.height

def withMotion (b : Body) (axis : Axis) (position velocity : Int16) : Body :=
  match axis with
  | .x => { b with x := position, vx := velocity }
  | .y => { b with y := position, vy := velocity }

def doubleCentre (b : Body) (axis : Axis) : Int :=
  (b.position axis).toInt * 2 + (b.extent axis).toNat

/-- The coordinate behind the last pixel. -/
def far (b : Body) (axis : Axis) : Int := (b.position axis).toInt + (b.extent axis).toNat

def gap (a b : Body) (axis : Axis) : Int := b.doubleCentre axis - a.doubleCentre axis

def contactAxis (a b : Body) : Axis :=
  if (gap a b .y).natAbs < (gap a b .x).natAbs then .x else .y

def overlap (a b : Body) (axis : Axis) : Int :=
  min (a.far axis) (b.far axis) - max (a.position axis).toInt (b.position axis).toInt

def share (overlap : Int) (ratio : Nat) : Int16 := .ofInt (overlap * ratio / 256)

/-- Pushes a body in a direction, 1 or -1. If it was moving the other way it bounces. -/
def pushed (b : Body) (axis : Axis) (direction : Int16) (overlap : Int) (coefficient : Fixed)
    (ratio : Nat) : Body :=
  let v := b.velocity axis
  b.withMotion axis (b.position axis + direction * share overlap ratio)
    (if v.toInt.sign = -direction.toInt then bounce v coefficient ratio else v)

def separate (coefficient : Fixed) (a b : Body) : Body × Body :=
  match separationRatios a.mass b.mass with
  | none => (a, b)
  | some (ratioA, ratioB) =>
    let axis := contactAxis a b
    let overlap := overlap a b axis
    let direction : Int16 := if 0 ≤ gap a b axis then 1 else -1
    (a.pushed axis (-direction) overlap coefficient ratioA,
      b.pushed axis direction overlap coefficient ratioB)

/-- One frame of movement under a gravity. Positions advance by whole pixels. -/
def advance (b : Body) (gravity : Fixed) : Body :=
  let vx := clamp (-b.maxVx.raw) b.maxVx.raw (b.friction.scale b.vx)
  let vy := clamp (-b.maxVy.raw) b.maxVy.raw (b.vy + gravity.raw)
  { b with vx, vy, x := b.x + (vx >>> 8), y := b.y + (vy >>> 8) }

def carries (b : Body) (tag : String) : Bool := b.active && b.tag = tag

def toJson (b : Body) : Json :=
  .ofMembers
    [("x", .ofInt b.x.toInt), ("y", .ofInt b.y.toInt), ("vx", .ofInt b.vx.toInt),
      ("vy", .ofInt b.vy.toInt), ("width", .ofNat b.width.toNat),
      ("height", .ofNat b.height.toNat), ("tag", .ofString b.tag), ("mass", .ofNat b.mass.toNat),
      ("friction", b.friction.toJson), ("max_vx", b.maxVx.toJson), ("max_vy", b.maxVy.toJson),
      ("active", .bool b.active)]

end Body

end Cartridge.Physics
