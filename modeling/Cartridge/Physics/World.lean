import Cartridge.Number.Fixed
import Cartridge.Stmt.Json

/-! The physics of a game: forces, bodies, and which tags collide. -/
namespace Cartridge.Physics

/-- A rectangle with a gravity of its own. -/
structure Zone where
  x : Int16
  y : Int16
  width : UInt16
  height : UInt16
  gravity : Fixed
  deriving DecidableEq, Repr

namespace Zone

/-- Whether a point lies in the rectangle, whose far edges are outside. -/
def contains (z : Zone) (x y : Int16) : Bool :=
  z.x.toInt ≤ x.toInt && x.toInt < z.x.toInt + z.width.toNat
    && z.y.toInt ≤ y.toInt && y.toInt < z.y.toInt + z.height.toNat

def toJson (z : Zone) : Json :=
  .ofMembers
    [("x", .ofInt z.x.toInt), ("y", .ofInt z.y.toInt), ("width", .ofNat z.width.toNat),
      ("height", .ofNat z.height.toNat), ("gravity", z.gravity.toJson)]

def ofJson? (depth : Nat) (j : Json) : Option Zone :=
  Json.within depth fun _ => do
    let f ← j.fields? ["x", "y", "width", "height", "gravity"]
    return ⟨← f.need "x" Json.i16?, ← f.need "y" Json.i16?, ← f.need "width" Json.u16?,
      ← f.need "height" Json.u16?, ← f.need "gravity" Fixed.ofJson?⟩

end Zone

/-- What makes the instances of an entity move. -/
structure BodyDef where
  entity : String
  mass : UInt8
  friction : Option Fixed := none
  maxVx : Fixed := .greatest
  maxVy : Fixed := .greatest
  deriving DecidableEq, Repr

namespace BodyDef

def toJson (b : BodyDef) : Json :=
  .ofMembers
    ([("entity", .ofString b.entity), ("mass", .ofNat b.mass.toNat)]
      ++ Json.member? "friction" (b.friction.map Fixed.toJson)
      ++ [("max_vx", b.maxVx.toJson), ("max_vy", b.maxVy.toJson)])

def ofJson? (depth : Nat) (j : Json) : Option BodyDef :=
  Json.within depth fun _ => do
    let f ← j.fields? ["entity", "mass", "friction", "max_vx", "max_vy"]
    return ⟨← f.need "entity" Json.text?, ← f.need "mass" Json.u8?,
      ← f.get? "friction" Fixed.ofJson?, ← f.need "max_vx" Fixed.ofJson?,
      ← f.need "max_vy" Fixed.ofJson?⟩

end BodyDef

/-- What happens when instances with two tags overlap. -/
structure Pair where
  tagA : String
  tagB : String
  solid : Bool := true
  onHit : List Stmt := []
  deriving DecidableEq

namespace Pair

def toJson (p : Pair) : Json :=
  .ofMembers
    [("tag_a", .ofString p.tagA), ("tag_b", .ofString p.tagB), ("solid", .bool p.solid),
      ("on_hit", Stmt.listToJson p.onHit)]

def ofJson? (depth : Nat) (j : Json) : Option Pair :=
  Json.within depth fun depth => do
    let f ← j.fields? ["tag_a", "tag_b", "solid", "on_hit"]
    return ⟨← f.need "tag_a" Json.text?, ← f.need "tag_b" Json.text?,
      ← f.getD "solid" true Json.bool?, ← f.getD "on_hit" [] (Stmt.listOfJson? depth)⟩

end Pair

structure World where
  gravity : Fixed := .zero
  friction : Fixed := .one
  bounce : Fixed := .zero
  zones : List Zone := []
  bodies : List BodyDef := []
  pairs : List Pair := []
  deriving DecidableEq

namespace World

def toJson (w : World) : Json :=
  .ofMembers
    [("gravity", w.gravity.toJson), ("friction", w.friction.toJson), ("bounce", w.bounce.toJson),
      ("zones", .arr (w.zones.map Zone.toJson)), ("bodies", .arr (w.bodies.map BodyDef.toJson)),
      ("collisions", .arr (w.pairs.map Pair.toJson))]

def ofJson? (depth : Nat) (j : Json) : Option World :=
  Json.within depth fun depth => do
    let f ← j.fields? ["gravity", "friction", "bounce", "zones", "bodies", "collisions"]
    return ⟨← f.need "gravity" Fixed.ofJson?, ← f.need "friction" Fixed.ofJson?,
      ← f.need "bounce" Fixed.ofJson?, ← f.getD "zones" [] (Json.list? depth Zone.ofJson?),
      ← f.getD "bodies" [] (Json.list? depth BodyDef.ofJson?),
      ← f.getD "collisions" [] (Json.list? depth Pair.ofJson?)⟩

end World

end Cartridge.Physics
