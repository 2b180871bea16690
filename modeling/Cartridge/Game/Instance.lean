import Cartridge.Game.Basic

/-! The table of entity instances, and the declarations that names of a program refer to. -/
namespace Cartridge

/-- A slot of the instance table. -/
structure Instance where
  entity : String
  tag : String
  /-- The pool the slot belongs to. -/
  pool : Option String
  x : Int16
  y : Int16
  width : UInt8
  height : UInt8
  deriving DecidableEq, Repr

def Instance.toJson (i : Instance) : Json :=
  .arr
    [.ofString i.entity, .ofString i.tag,
      match i.pool with
      | some pool => .ofString pool
      | none => .null,
      .ofInt i.x.toInt, .ofInt i.y.toInt, .ofNat i.width.toNat, .ofNat i.height.toNat]

namespace Game

def staticInstance (e : Entity) : Instance := ⟨e.name, e.tag, none, e.x, e.y, e.width, e.height⟩

/-- The slots of a pool; a pool of an unknown entity has none. -/
def poolInstances (g : Game) (p : Pool) : List Instance :=
  match g.entity? p.entity with
  | some e => List.replicate p.capacity.toNat ⟨e.name, e.tag, some p.name, 0, 0, e.width, e.height⟩
  | none => []

def staticInstances (g : Game) : List Instance :=
  (g.entities.filter fun e => !g.isPoolTemplate e.name).map staticInstance

/-- First the single instances in the order of declaration, then the slots of each pool. -/
def instances (g : Game) : List Instance :=
  g.staticInstances ++ g.pools.flatMap g.poolInstances

/-- Consecutive slots. -/
structure SlotRange where
  first : Nat
  size : Nat
  deriving DecidableEq, Repr

def poolRanges (g : Game) (first : Nat) : List Pool → List (String × SlotRange)
  | [] => []
  | p :: rest =>
    match g.entity? p.entity with
    | some _ =>
      (p.name, ⟨first, p.capacity.toNat⟩) :: g.poolRanges (first + p.capacity.toNat) rest
    | none => g.poolRanges first rest

/-- The slots of a pool; of pools with one name, those of the last. -/
def poolRange? (g : Game) (pool : String) : Option SlotRange :=
  (g.poolRanges g.staticInstances.length g.pools).reverse.lookup pool

def slotsWhere (g : Game) (p : Instance → Bool) : List Nat :=
  (g.instances.zipIdx.filter fun (i, _) => p i).map Prod.snd

def instancesOf (g : Game) (entity : String) : List Nat :=
  g.slotsWhere fun i => i.entity = entity

def instancesWithTag (g : Game) (tag : String) : List Nat :=
  g.slotsWhere fun i => i.tag = tag

def hasTag (g : Game) (tag : String) : Bool := g.tags.contains tag

def sceneIndex? (g : Game) (name : String) : Option Nat :=
  g.scenes.findIdx? fun s => s.name = name

/-- The domain of the last declaration of a name, arrays after variables. -/
def declaredDomain? (g : Game) (name : String) : Option Domain :=
  (g.scalars.map (fun v => (v.name, v.type.domain))
    ++ g.arrays.map (fun a => (a.name, a.type.domain))).reverse.lookup name

def arrayLength? (g : Game) (name : String) : Option UInt16 :=
  (g.arrays.map fun a => (a.name, a.length)).reverse.lookup name

end Game

end Cartridge
