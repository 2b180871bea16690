import Cartridge.Save.Schema

/-! The bytes of one save slot. -/
namespace Cartridge.Save

structure Image where
  schema : Schema
  bytes : List UInt8
  deriving DecidableEq

namespace Image

def write (bytes : List UInt8) (position : Nat) : List UInt8 → List UInt8
  | [] => bytes
  | b :: rest => write (bytes.set position b) (position + 1) rest

def checksumBytes (i : Image) : List UInt8 :=
  i.schema.checksum.encode (i.schema.checksum.compute (i.bytes.take i.schema.checksumOffset))

def sealed (i : Image) : Image :=
  { i with bytes := write i.bytes i.schema.checksumOffset i.checksumBytes }

def writeDefaults (bytes : List UInt8) (f : Field) : List UInt8 :=
  (List.range f.length).foldl
    (fun bytes k => write bytes (f.offset.toNat + k * f.type.size) (f.type.encode f.default.toInt)) bytes

def new (s : Schema) : Image :=
  let blank := write (List.replicate s.slotSize 0) 0 ((s.magic.map Vector.toList).getD [])
  sealed ⟨s, s.fields.foldl writeDefaults (blank.set s.versionOffset s.version)⟩

def ofBytes (s : Schema) (bytes : List UInt8) : Except Error Image :=
  if bytes.length = s.slotSize then .ok ⟨s, bytes⟩
  else .error (.invalid (.saveSlotLength bytes.length s.slotSize))

def locate (i : Image) (name : String) (index : Nat) : Except Error (Field × Nat) := do
  let f ← i.schema.field name
  if index < f.length then .ok (f, f.offset.toNat + index * f.type.size)
  else .error (.invalid (.saveIndex f.name index f.length))

def get (i : Image) (name : String) (index : Nat) : Except Error Int := do
  let (f, position) ← i.locate name index
  return f.type.decode (i.bytes.drop position)

/-- Writes a value. The checksum is stale until the slot is sealed. -/
def set (i : Image) (name : String) (index : Nat) (value : Int) : Except Error Image := do
  let (f, position) ← i.locate name index
  return { i with bytes := write i.bytes position (f.type.encode value) }

/-- Writes one byte; there is none past the end. -/
def poke? (i : Image) (position : Nat) (b : UInt8) : Option Image :=
  if position < i.bytes.length then some { i with bytes := i.bytes.set position b } else none

def isValid (i : Image) : Bool :=
  (match i.schema.magic with
    | some m => i.bytes.take 4 = m.toList
    | none => true)
    && i.bytes[i.schema.versionOffset]? = some i.schema.version
    && (i.bytes.drop i.schema.checksumOffset).take i.schema.checksum.size = i.checksumBytes

end Image

end Cartridge.Save
