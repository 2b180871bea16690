import Cartridge.Number.Fixed

/-! What can go wrong while a game is put together, and how it is told. -/
namespace Cartridge

/-- Kinds of things that are looked up by name. -/
inductive Kind where
  | state
  | saveField
  | logicBlock
  deriving DecidableEq, Repr

def Kind.word : Kind → String
  | .state => "state"
  | .saveField => "save field"
  | .logicBlock => "logic block"

inductive Axis where
  | x
  | y
  deriving DecidableEq, Repr

def Axis.word : Axis → String
  | .x => "x"
  | .y => "y"

/-- Reasons to refuse a configuration. -/
inductive Invalid where
  /-- The document is not the JSON form of a game. -/
  | document
  | gridSize (width height : Nat)
  | gridRowCount
  | gridRowWidth
  | gridRow (y found expected : Nat)
  | gridTile (c : Char) (x y : Nat)
  | gridBits (found expected : Nat)
  | gridWeights (found expected : Nat)
  | arrayEmpty (name : String)
  | arraySurplus (name : String) (found length : Nat)
  | bodyMassless (entity : String)
  | bodyClamp (entity : String) (axis : Axis) (found : Fixed)
  | saveNoSlot
  | saveDuplicate (field : String)
  | saveArrayLength (field : String) (found : Nat)
  | saveSlotTooLarge
  | saveSlots (slots size : Nat)
  | saveLayout (field : String) (offset size expectedOffset expectedSize : Nat)
  | saveSlotLength (found expected : Nat)
  | saveIndex (field : String) (index length : Nat)
  /-- A reason in an author's own words. -/
  | other (text : String)
  deriving DecidableEq, Repr

def maxGridEdge : Nat := 32

/-- The bytes of battery-backed memory on a cartridge. -/
def saveMemory : Nat := 8192

def Invalid.message : Invalid → String
  | .document => "game JSON"
  | .gridSize w h => s!"navigation grid {w}x{h} outside 1..={maxGridEdge} per edge"
  | .gridRowCount => "navigation grid has too many rows"
  | .gridRowWidth => "navigation grid row too wide"
  | .gridRow y found expected => s!"navigation grid row {y} has {found} tiles, expected {expected}"
  | .gridTile c x y => s!"unexpected navigation tile '{c}' at ({x}, {y})"
  | .gridBits found expected => s!"navigation bitset holds {found} bytes, expected {expected}"
  | .gridWeights found expected => s!"navigation weights hold {found} entries, expected {expected}"
  | .arrayEmpty name => s!"array '{name}' has length 0"
  | .arraySurplus name found length =>
    s!"array '{name}' has {found} initializers for {length} elements"
  | .bodyMassless entity =>
    s!"physics body '{entity}' has mass 0; leave the body out for a static obstacle"
  | .bodyClamp entity axis found =>
    s!"physics body '{entity}' has negative max velocity on {axis.word}: {found.text}"
  | .saveNoSlot => "save schema needs at least one slot"
  | .saveDuplicate field => s!"duplicate save field '{field}'"
  | .saveArrayLength field found => s!"save field '{field}' array length {found} outside 1..=255"
  | .saveSlotTooLarge => "save slot exceeds 64 KiB"
  | .saveSlots slots size =>
    s!"{slots} save slot(s) of {size} bytes exceed {saveMemory} bytes of SRAM"
  | .saveLayout field offset size expectedOffset expectedSize =>
    s!"save field '{field}' laid out at {offset}+{size}, expected {expectedOffset}+{expectedSize}"
  | .saveSlotLength found expected => s!"save slot is {found} bytes, expected {expected}"
  | .saveIndex field index length =>
    s!"save field '{field}' index {index} out of bounds (len {length})"
  | .other text => text

inductive Error where
  /-- A statement outside any recorded block. -/
  | noOpenBlock
  /-- An else branch after something that is no open conditional. -/
  | noConditional
  | arity (block : String) (expected found : Nat)
  | unknown (kind : Kind) (name : String)
  | invalid (reason : Invalid)
  deriving DecidableEq, Repr

def Error.message : Error → String
  | .noOpenBlock =>
    "no active recording context: statements can only be emitted inside a recorded block"
  | .noConditional =>
    "no conditional to extend: the last recorded statement is not an else-less `if`"
  | .arity block expected found =>
    s!"logic block '{block}' expects {expected} argument(s), found {found}"
  | .unknown kind name => s!"unknown {kind.word} '{name}'"
  | .invalid reason => "invalid configuration: " ++ reason.message

/-- Why a computation gave no result. -/
inductive Halt (ε : Type) where
  | error (e : ε)
  /-- An index or a sum left its range. -/
  | fault
  deriving DecidableEq, Repr

def Halt.ofOption {ε α} : Option α → Except (Halt ε) α
  | some a => .ok a
  | none => .error .fault

def Halt.ofExcept {ε α} : Except ε α → Except (Halt ε) α
  | .ok a => .ok a
  | .error e => .error (.error e)

end Cartridge
