import Cartridge.Error
import Cartridge.Json.Decode

/-!
Navigation grids: one bit a tile says whether it can be walked on, and an optional layer of bytes
what entering it costs. Writing a weight also opens or blocks the tile; writing a bit leaves the
weight alone.
-/
namespace Cartridge.Nav

structure Tile where
  x : UInt8
  y : UInt8
  deriving DecidableEq, Repr

def Tile.toJson (t : Tile) : Json := .arr [.ofNat t.x.toNat, .ofNat t.y.toNat]

/-- Tiles are counted row by row, eight to a byte, the first in the lowest bit. -/
structure Grid where
  width : UInt8
  height : UInt8
  walkable : List UInt8
  weights : Option (List UInt8) := none
  deriving DecidableEq, Repr

namespace Grid

def tileCount (g : Grid) : Nat := g.width.toNat * g.height.toNat

def contains (g : Grid) (t : Tile) : Bool := t.x < g.width && t.y < g.height

def index (g : Grid) (t : Tile) : Nat := t.y.toNat * g.width.toNat + t.x.toNat

def tileAt (g : Grid) (i : Nat) : Tile :=
  ⟨.ofNat (i % g.width.toNat), .ofNat (i / g.width.toNat)⟩

/-- A grid without columns has no tile at any place. -/
def tileAt? (g : Grid) (i : Nat) : Option Tile :=
  if g.width = 0 then none else some (g.tileAt i)

def mask (i : Nat) : UInt8 := 1 <<< UInt8.ofNat (i % 8)

def bit (g : Grid) (i : Nat) : Bool := g.walkable.getD (i / 8) 0 &&& mask i ≠ 0

def setBit (g : Grid) (i : Nat) (on : Bool) : Grid :=
  let old := g.walkable.getD (i / 8) 0
  { g with walkable := g.walkable.set (i / 8) (if on then old ||| mask i else old &&& ~~~mask i) }

def hasBit (g : Grid) (i : Nat) : Bool := i / 8 < g.walkable.length

def isWalkable (g : Grid) (t : Tile) : Bool := g.contains t && g.bit (g.index t)

def weight (g : Grid) (t : Tile) : UInt8 :=
  match g.weights with
  | some w => if g.contains t then w.getD (g.index t) 1 else 1
  | none => 1

def hasWeights (g : Grid) : Bool := g.weights.isSome

def setWalkable (g : Grid) (t : Tile) (on : Bool) : Grid :=
  if g.contains t then g.setBit (g.index t) on else g

/-- Sets a weight, at first use of the layer giving every other tile the weight one. -/
def setWeight (g : Grid) (t : Tile) (w : UInt8) : Grid :=
  if g.contains t then
    let layer := g.weights.getD (List.replicate g.tileCount 1)
    { g with weights := some (layer.set (g.index t) w) }.setBit (g.index t) (w ≠ 0)
  else g

/-- The number of walkable tiles. The bytes are put into an array, since every tile is looked
up. -/
def walkableCount (g : Grid) : Nat :=
  let bytes := g.walkable.toArray
  (List.range g.tileCount).countP fun i => bytes.getD (i / 8) 0 &&& mask i ≠ 0

theorem walkableCount_eq (g : Grid) : g.walkableCount = (List.range g.tileCount).countP g.bit := by
  simp only [walkableCount]
  congr 1
  funext i
  simp [bit]

/-! Grids read from a document may hold too few bytes. The checked forms give nothing then. -/

def isWalkable? (g : Grid) (t : Tile) : Option Bool :=
  if g.contains t && !g.hasBit (g.index t) then none else some (g.isWalkable t)

def weight? (g : Grid) (t : Tile) : Option UInt8 :=
  match g.weights with
  | some w => if g.contains t then w[g.index t]? else some 1
  | none => some 1

def setWalkable? (g : Grid) (t : Tile) (on : Bool) : Option Grid :=
  if g.contains t && !g.hasBit (g.index t) then none else some (g.setWalkable t on)

def setWeight? (g : Grid) (t : Tile) (w : UInt8) : Option Grid :=
  if g.contains t then
    let layer := (g.weights.map List.length).getD g.tileCount
    if g.index t < layer ∧ g.hasBit (g.index t) then some (g.setWeight t w) else none
  else some g

def walkableCount? (g : Grid) : Option Nat :=
  if g.tileCount ≤ 8 * g.walkable.length then some g.walkableCount else none

def byteCount (width height : UInt8) : Nat := (width.toNat * height.toNat + 7) / 8

def blocked (width height : UInt8) : Except Error Grid :=
  if width = 0 ∨ height = 0 ∨ maxGridEdge < width.toNat ∨ maxGridEdge < height.toNat then
    .error (.invalid (.gridSize width.toNat height.toNat))
  else .ok { width, height, walkable := List.replicate (byteCount width height) 0 }

def opened (width height : UInt8) : Except Error Grid := do
  let g ← blocked width height
  return (List.range g.tileCount).foldl (fun g i => g.setBit i true) g

/-- Puts the tile a character names: `.` is open, `#` blocked, and a digit is open with that
weight. -/
def putChar (g : Grid) (x y : Nat) (c : Char) : Except Error Grid :=
  let t : Tile := ⟨.ofNat x, .ofNat y⟩
  if c = '.' then .ok (g.setWalkable t true)
  else if c = '#' then .ok (g.setWalkable t false)
  else if '1' ≤ c ∧ c ≤ '9' then .ok (g.setWeight t (.ofNat (c.toNat - '0'.toNat)))
  else .error (.invalid (.gridTile c x y))

def putChars (g : Grid) (x y : Nat) : List Char → Except Error Grid
  | [] => .ok g
  | c :: cs => do putChars (← g.putChar x y c) (x + 1) y cs

def putRows (g : Grid) (y : Nat) : List String → Except Error Grid
  | [] => .ok g
  | row :: rows =>
    if row.length = g.width.toNat then do
      putRows (← g.putChars 0 y row.toList) (y + 1) rows
    else .error (.invalid (.gridRow y row.length g.width.toNat))

def ofRows (rows : List String) : Except Error Grid :=
  let width := (rows.head?.map String.length).getD 0
  if 255 < rows.length then .error (.invalid .gridRowCount)
  else if 255 < width then .error (.invalid .gridRowWidth)
  else do
    let g ← blocked (.ofNat width) (.ofNat rows.length)
    g.putRows 0 rows

def validate (g : Grid) : Except Error Unit := do
  let fresh ← blocked g.width g.height
  if g.walkable.length ≠ fresh.walkable.length then
    .error (.invalid (.gridBits g.walkable.length fresh.walkable.length))
  else match g.weights with
    | some w =>
      if w.length ≠ g.tileCount then .error (.invalid (.gridWeights w.length g.tileCount))
      else .ok ()
    | none => .ok ()

def bytesToJson (bytes : List UInt8) : Json := .arr (bytes.map (.ofNat ·.toNat))

def toJson (g : Grid) : Json :=
  .ofMembers
    ([("width", .ofNat g.width.toNat), ("height", .ofNat g.height.toNat),
        ("walkable", bytesToJson g.walkable)]
      ++ Json.member? "weights" (g.weights.map bytesToJson))

def bytesOfJson? (depth : Nat) : Json → Option (List UInt8) := Json.list? depth fun _ => Json.u8?

def ofJson? (depth : Nat) (j : Json) : Option Grid :=
  Json.within depth fun depth => do
    let f ← j.fields? ["width", "height", "walkable", "weights"]
    return ⟨← f.need "width" Json.u8?, ← f.need "height" Json.u8?,
      ← f.need "walkable" (bytesOfJson? depth), ← f.get? "weights" (bytesOfJson? depth)⟩

end Grid

/-- How the distance to the goal is estimated. -/
inductive Heuristic where
  | manhattan
  | chebyshev
  deriving DecidableEq, Repr

namespace Heuristic

def all : List Heuristic := [.manhattan, .chebyshev]

def name : Heuristic → String
  | .manhattan => "manhattan"
  | .chebyshev => "chebyshev"

def distance (a b : UInt8) : Nat := max a.toNat b.toNat - min a.toNat b.toNat

def estimate (h : Heuristic) (a b : Tile) : Nat :=
  match h with
  | .manhattan => distance a.x b.x + distance a.y b.y
  | .chebyshev => max (distance a.x b.x) (distance a.y b.y)

end Heuristic

/-- How a search goes about. -/
structure Config where
  diagonal : Bool := false
  heuristic : Heuristic := .manhattan
  maxIterations : UInt16 := 256
  deriving DecidableEq, Repr

namespace Config

def toJson (c : Config) : Json :=
  .ofMembers
    [("diagonal", .bool c.diagonal), ("heuristic", .ofString c.heuristic.name),
      ("max_iterations", .ofNat c.maxIterations.toNat)]

def ofJson? (depth : Nat) (j : Json) : Option Config :=
  Json.within depth fun depth => do
    let f ← j.fields? ["diagonal", "heuristic", "max_iterations"]
    return ⟨← f.need "diagonal" Json.bool?,
      ← f.need "heuristic" (Json.oneOf? Heuristic.all Heuristic.name depth),
      ← f.need "max_iterations" Json.u16?⟩

end Config

/-- A grid under a name, with the way it is searched. -/
structure Map where
  name : String
  grid : Grid
  config : Config
  deriving DecidableEq, Repr

namespace Map

def toJson (m : Map) : Json :=
  .ofMembers
    [("name", .ofString m.name), ("grid", m.grid.toJson), ("pathfinder", m.config.toJson)]

def ofJson? (depth : Nat) (j : Json) : Option Map :=
  Json.within depth fun depth => do
    let f ← j.fields? ["name", "grid", "pathfinder"]
    return ⟨← f.need "name" Json.text?, ← f.need "grid" (Grid.ofJson? depth),
      ← f.getD "pathfinder" {} (Config.ofJson? depth)⟩

end Map

end Cartridge.Nav
