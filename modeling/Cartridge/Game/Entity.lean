import Cartridge.Json.Decode

/-! Entities and the pools that spawn them. -/
namespace Cartridge

/-- A kind of thing on the screen. One that no pool spawns has a single instance at its place. -/
structure Entity where
  name : String
  tag : String
  width : UInt8
  height : UInt8
  x : Int16 := 0
  y : Int16 := 0
  deriving DecidableEq, Repr

namespace Entity

def toJson (e : Entity) : Json :=
  .ofMembers
    [("name", .ofString e.name), ("tag", .ofString e.tag), ("width", .ofNat e.width.toNat),
      ("height", .ofNat e.height.toNat), ("x", .ofInt e.x.toInt), ("y", .ofInt e.y.toInt)]

def ofJson? (depth : Nat) (j : Json) : Option Entity :=
  Json.within depth fun _ => do
    let f ← j.fields? ["name", "tag", "width", "height", "x", "y"]
    return ⟨← f.need "name" Json.text?, ← f.need "tag" Json.text?, ← f.need "width" Json.u8?,
      ← f.need "height" Json.u8?, ← f.getD "x" 0 Json.i16?, ← f.getD "y" 0 Json.i16?⟩

end Entity

/-- A number of slots for instances of an entity. -/
structure Pool where
  name : String
  entity : String
  capacity : UInt8
  deriving DecidableEq, Repr

namespace Pool

def toJson (p : Pool) : Json :=
  .ofMembers
    [("name", .ofString p.name), ("entity", .ofString p.entity),
      ("capacity", .ofNat p.capacity.toNat)]

def ofJson? (depth : Nat) (j : Json) : Option Pool :=
  Json.within depth fun _ => do
    let f ← j.fields? ["name", "entity", "capacity"]
    return ⟨← f.need "name" Json.text?, ← f.need "entity" Json.text?,
      ← f.need "capacity" Json.u8?⟩

end Pool

end Cartridge
