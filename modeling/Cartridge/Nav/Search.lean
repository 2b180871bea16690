import Cartridge.Nav.Grid

/-!
Bounded A* search. It works in tables of fixed size: at most 64 nodes, at most 128 waiting entries
and a set of closed tiles below 1024. A node reached more cheaply is entered again, and its older
entry is passed over once the tile is closed.
-/
namespace Cartridge.Nav

def maxNodes : Nat := 64

def maxWaiting : Nat := 128

def maxTiles : Nat := 1024

/-- A step on the grid, modulo 256 in each direction. -/
structure Direction where
  dx : UInt8
  dy : UInt8
  deriving DecidableEq, Repr

namespace Direction

def eight : List Direction :=
  [⟨0, -1⟩, ⟨1, -1⟩, ⟨1, 0⟩, ⟨1, 1⟩, ⟨0, 1⟩, ⟨-1, 1⟩, ⟨-1, 0⟩, ⟨-1, -1⟩]

def four : List Direction := [⟨0, -1⟩, ⟨1, 0⟩, ⟨0, 1⟩, ⟨-1, 0⟩]

def isDiagonal (d : Direction) : Bool := d.dx ≠ 0 && d.dy ≠ 0

def apply (d : Direction) (t : Tile) : Tile := ⟨t.x + d.dx, t.y + d.dy⟩

end Direction

def Config.directions (c : Config) : List Direction :=
  if c.diagonal then Direction.eight else Direction.four

/-- A tile that was reached: from which node, at what cost, and the estimate of the whole way. -/
structure Node where
  tile : UInt16
  parent : UInt8
  cost : UInt16
  total : UInt16
  deriving DecidableEq, Repr

namespace Node

/-- Tile and parent in one word. -/
def pack (tile : UInt16) (parent : UInt8) : UInt16 := (tile <<< 6) ||| (parent.toUInt16 &&& 0x3F)

def unpack (word : UInt16) : UInt16 × UInt8 := (word >>> 6, (word &&& 0x3F).toUInt8)

end Node

/-- A waiting entry: the estimate it was made with and its node. -/
structure Entry where
  total : UInt16
  node : UInt8
  deriving DecidableEq, Repr

/-- Smaller estimates come first, then earlier nodes. -/
def Entry.before (a b : Entry) : Bool :=
  a.total < b.total || (a.total = b.total && a.node < b.node)

def insertEntry (e : Entry) : List Entry → List Entry
  | [] => [e]
  | a :: rest => if a.before e then a :: insertEntry e rest else e :: a :: rest

inductive Outcome where
  /-- The tiles from the first step to the goal. -/
  | found (path : List Tile)
  | noPath
  | budgetExhausted
  | tableFull
  deriving DecidableEq, Repr

namespace Outcome

def isFound : Outcome → Bool
  | .found _ => true
  | _ => false

def path? : Outcome → Option (List Tile)
  | .found path => some path
  | _ => none

def name : Outcome → String
  | .found _ => "found"
  | .noPath => "no_path"
  | .budgetExhausted => "budget_exhausted"
  | .tableFull => "node_table_full"

def status : Outcome → Nat
  | .found _ => 0
  | .noPath => 1
  | .budgetExhausted => 2
  | .tableFull => 3

def toJson (o : Outcome) : Json :=
  .ofMembers
    [("outcome", .ofString o.name), ("status", .ofNat o.status), ("found", .bool o.isFound),
      ("path", match o.path? with
        | some path => .arr (path.map Tile.toJson)
        | none => .null)]

end Outcome

/-- The tables of a search. -/
structure Search where
  nodes : List Node
  /-- Waiting entries, the next one first. -/
  waiting : List Entry
  closed : List UInt16
  deriving DecidableEq, Repr

/-- What is searched. -/
structure Query where
  grid : Grid
  config : Config
  goal : Tile
  deriving DecidableEq, Repr

namespace Search

/-- Whether a tile is closed; there is no answer past the end of the set. -/
def isClosed? (s : Search) (tile : UInt16) : Option Bool :=
  if tile.toNat < maxTiles then some (s.closed.contains tile) else none

/-- Whether a step leads to a walkable tile without cutting a blocked corner. -/
def canStep? (g : Grid) (t : Tile) (d : Direction) : Option Bool := do
  let next := d.apply t
  if !(← g.isWalkable? next) then return false
  if !d.isDiagonal then return true
  if !(← g.isWalkable? ⟨next.x, t.y⟩) then return false
  g.isWalkable? ⟨t.x, next.y⟩

def enter (s : Search) (slot : Nat) (n : Node) : Search :=
  { s with
    nodes := if slot < s.nodes.length then s.nodes.set slot n else s.nodes ++ [n]
    waiting := insertEntry ⟨n.total, .ofNat slot⟩ s.waiting }

/-- Reaches a tile at a cost. A node that is no cheaper is left alone; a full table ends the
search. -/
def reach (q : Query) (parent : UInt8) (next : Tile) (cost : UInt16) (s : Search) :
    Except (Halt Outcome) Search :=
  let tile := UInt16.ofNat (q.grid.index next)
  let node : Node :=
    { tile, parent, cost, total := cost + .ofNat (q.config.heuristic.estimate next q.goal) }
  let add (slot : Nat) : Except (Halt Outcome) Search :=
    if s.waiting.length = maxWaiting then .error (.error .tableFull) else .ok (s.enter slot node)
  match s.nodes.findIdx? fun n => n.tile = tile with
  | some k =>
    if ((s.nodes[k]?.map Node.cost).getD 0) ≤ cost then .ok s else add k
  | none => if s.nodes.length = maxNodes then .error (.error .tableFull) else add s.nodes.length

def visit (q : Query) (current : UInt8) (node : Node) (t : Tile) (s : Search) (d : Direction) :
    Except (Halt Outcome) Search := do
  if !(← Halt.ofOption (canStep? q.grid t d)) then return s
  let next := d.apply t
  if ← Halt.ofOption (s.isClosed? (.ofNat (q.grid.index next))) then return s
  let weight ← Halt.ofOption (q.grid.weight? next)
  s.reach q current next (node.cost + weight.toUInt16)

def expand (q : Query) (current : UInt8) (node : Node) (s : Search) :
    Except (Halt Outcome) Search := do
  let t ← Halt.ofOption (q.grid.tileAt? node.tile.toNat)
  q.config.directions.foldlM (visit q current node t) { s with closed := node.tile :: s.closed }

/-- The tiles from the first step to a node, following parents back to the first node. -/
def trace (g : Grid) (nodes : List Node) : Nat → Nat → List Tile → Option (List Tile)
  | _, 0, path => some path
  | 0, _ + 1, _ => none
  | fuel + 1, n + 1, path =>
    match nodes[n + 1]? with
    | some node => do
      let t ← g.tileAt? node.tile.toNat
      trace g nodes fuel node.parent.toNat (t :: path)
    | none => none

/-- Takes entries until the goal is taken, none is left or the budget is spent. -/
def run (q : Query) : Nat → Search → Except (Halt Outcome) Outcome
  | budget, s =>
    match s.waiting, budget with
    | [], _ => .ok .noPath
    | _ :: _, 0 => .ok .budgetExhausted
    | e :: rest, budget + 1 => do
      let s := { s with waiting := rest }
      let node ← Halt.ofOption s.nodes[e.node.toNat]?
      if ← Halt.ofOption (s.isClosed? node.tile) then run q budget s
      else if node.tile.toNat = q.grid.index q.goal then
        return .found (← Halt.ofOption (trace q.grid s.nodes s.nodes.length e.node.toNat []))
      else do run q budget (← s.expand q e.node node)

end Search

/-- Searches a way from a tile to another. There is no answer if the grid holds too few bytes for
a tile looked at, or a tile is too far for the closed set. -/
def search (g : Grid) (start goal : Tile) (c : Config) : Option Outcome := do
  if !(← g.isWalkable? start) then return .noPath
  if !(← g.isWalkable? goal) then return .noPath
  if start = goal then return .found []
  let total : UInt16 := .ofNat (c.heuristic.estimate start goal)
  let first : Node := ⟨.ofNat (g.index start), 0, 0, total⟩
  match Search.run ⟨g, c, goal⟩ c.maxIterations.toNat ⟨[first], [⟨total, 0⟩], []⟩ with
  | .ok outcome => return outcome
  | .error (.error outcome) => return outcome
  | .error .fault => none

end Cartridge.Nav
