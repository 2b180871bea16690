import Cartridge.Error
import Cartridge.Save.Checksum

/-!
The layout of a save slot: an optional magic number, a version byte, the fields packed in the order
of declaration, and a checksum over all before it.
-/
namespace Cartridge.Save

/-- How the value of a field is stored. -/
inductive FieldType where
  | u8
  | i8
  | u16
  | i16
  | bool
  | fixed
  deriving DecidableEq, Repr

namespace FieldType

def all : List FieldType := [.u8, .i8, .u16, .i16, .bool, .fixed]

def name : FieldType → String
  | .u8 => "u8"
  | .i8 => "i8"
  | .u16 => "u16"
  | .i16 => "i16"
  | .bool => "bool"
  | .fixed => "fixed"

def size : FieldType → Nat
  | .u8 | .i8 | .bool => 1
  | .u16 | .i16 | .fixed => 2

def cType : FieldType → String
  | .u8 | .bool => "uint8_t"
  | .i8 => "int8_t"
  | .u16 => "uint16_t"
  | .i16 | .fixed => "int16_t"

/-- A value cut to the bytes of the type, the lower byte first. -/
def encode (t : FieldType) (value : Int) : List UInt8 :=
  let word : UInt16 := .ofInt value
  [word.toUInt8, (word >>> 8).toUInt8].take t.size

def decode (t : FieldType) (bytes : List UInt8) : Int :=
  let low := (bytes.getD 0 0).toNat
  let word : Int := low + 256 * (bytes.getD 1 0).toNat
  match t with
  | .u8 => low
  | .bool => if low = 0 then 0 else 1
  | .i8 => (low : Int).bmod 256
  | .u16 => word
  | .i16 | .fixed => word.bmod 65536

def ofJson? : Nat → Json → Option FieldType := Json.oneOf? all name

end FieldType

/-- A field with its place in the slot. -/
structure Field where
  name : String
  type : FieldType
  offset : UInt16
  size : UInt16
  arrayLength : Option UInt8
  default : Int32
  deriving DecidableEq, Repr

namespace Field

def length (f : Field) : Nat := (f.arrayLength.map UInt8.toNat).getD 1

def total : List Field → Nat
  | [] => 0
  | f :: rest => f.size.toNat + total rest

/-- No field counts as empty, since every valid one holds a value. -/
def isEmpty (_ : Field) : Bool := false

def toJson (f : Field) : Json :=
  .ofMembers
    ([("name", .ofString f.name), ("ty", .ofString f.type.name),
        ("offset", .ofNat f.offset.toNat), ("size", .ofNat f.size.toNat)]
      ++ Json.member? "array_len" (f.arrayLength.map (.ofNat ·.toNat))
      ++ [("default", .ofInt f.default.toInt)])

def ofJson? (depth : Nat) (j : Json) : Option Field :=
  Json.within depth fun depth => do
    let f ← j.fields? ["name", "ty", "offset", "size", "array_len", "default"]
    return ⟨← f.need "name" Json.text?, ← f.need "ty" (FieldType.ofJson? depth),
      ← f.need "offset" Json.u16?, ← f.need "size" Json.u16?, ← f.get? "array_len" Json.u8?,
      ← f.getD "default" 0 Json.i32?⟩

end Field

abbrev Magic := Vector UInt8 4

structure Schema where
  fields : List Field
  slots : UInt8
  checksum : Checksum
  magic : Option Magic
  version : UInt8
  deriving DecidableEq

def maxOffset : Nat := 65535

namespace Schema

def headerSizeOf (magic : Option Magic) : Nat := if magic.isSome then 5 else 1

def headerSize (s : Schema) : Nat := headerSizeOf s.magic

def versionOffset (s : Schema) : Nat := s.headerSize - 1

/-- Where the checksum stands, and the number of bytes it covers. -/
def checksumOffset (s : Schema) : Nat := s.headerSize + Field.total s.fields

def slotSize (s : Schema) : Nat := s.checksumOffset + s.checksum.size

def fits (s : Schema) : Bool := s.slotSize ≤ maxOffset

def field (s : Schema) (name : String) : Except Error Field :=
  match s.fields.find? fun f => f.name = name with
  | some f => .ok f
  | none => .error (.unknown .saveField name)

def magicToJson : Option Magic → Json
  | some m => .arr (m.toList.map (.ofNat ·.toNat))
  | none => .null

def toJson (s : Schema) : Json :=
  .ofMembers
    [("fields", .arr (s.fields.map Field.toJson)), ("slots", .ofNat s.slots.toNat),
      ("checksum", s.checksum.toJson), ("magic", magicToJson s.magic),
      ("version", .ofNat s.version.toNat)]

def layoutToJson (s : Schema) : Json :=
  .ofMembers
    [("schema", s.toJson), ("slots", .ofNat s.slots.toNat), ("version", .ofNat s.version.toNat),
      ("magic", magicToJson s.magic), ("header_size", .ofNat s.headerSize),
      ("version_offset", .ofNat s.versionOffset), ("checksum_offset", .ofNat s.checksumOffset),
      ("slot_size", .ofNat s.slotSize),
      ("lens", .arr (s.fields.map fun f => .arr [.ofNat f.length, .bool f.isEmpty]))]

end Schema

def magicOfJson? (depth : Nat) : Json → Option Magic
  | .arr [a, b, c, d] => Json.within depth fun _ => do
    return #v[← a.u8?, ← b.u8?, ← c.u8?, ← d.u8?]
  | _ => none

def Schema.ofJson? (depth : Nat) (j : Json) : Option Schema :=
  Json.within depth fun depth => do
    let f ← j.fields? ["fields", "slots", "checksum", "magic", "version"]
    return ⟨← f.need "fields" (Json.list? depth Field.ofJson?), ← f.need "slots" Json.u8?,
      ← f.need "checksum" (Checksum.ofJson? depth), ← f.named? "magic" (magicOfJson? depth),
      ← f.need "version" Json.u8?⟩

/-- A field as declared; an array has a length. -/
structure Declaration where
  name : String
  type : FieldType
  length : Option Nat
  default : Int32
  deriving DecidableEq, Repr

/-- What a schema is built from. -/
structure Plan where
  declarations : List Declaration := []
  slots : UInt8 := 1
  checksum : Checksum := .crc8
  magic : Option Magic := none
  version : UInt8 := 1
  deriving DecidableEq

namespace Plan

def place (done : List Field) (offset : Nat) : List Declaration → Except Error (List Field)
  | [] => .ok done
  | d :: rest =>
    if done.any fun f => f.name = d.name then .error (.invalid (.saveDuplicate d.name))
    else match d.length with
      | some n =>
        if 1 ≤ n ∧ n ≤ 255 then next d rest (some (.ofNat n)) (d.type.size * n)
        else .error (.invalid (.saveArrayLength d.name n))
      | none => next d rest none d.type.size
where
  next (d : Declaration) (rest : List Declaration) (length : Option UInt8) (size : Nat) :
      Except Error (List Field) :=
    if maxOffset < offset + size then .error (.invalid .saveSlotTooLarge)
    else
      place (done ++ [⟨d.name, d.type, .ofNat offset, .ofNat size, length, d.default⟩])
        (offset + size) rest

/-- Places the fields and checks the limits. It faults when the checksum alone pushes a slot past
16 bits. -/
def build (p : Plan) : Except (Halt Error) Schema :=
  if p.slots = 0 then .error (.error (.invalid .saveNoSlot)) else do
    let fields ← Halt.ofExcept (place [] (Schema.headerSizeOf p.magic) p.declarations)
    let s : Schema := ⟨fields, p.slots, p.checksum, p.magic, p.version⟩
    if !s.fits then .error .fault
    else if saveMemory < s.slotSize * s.slots.toNat then
      .error (.error (.invalid (.saveSlots s.slots.toNat s.slotSize)))
    else .ok s

end Plan

namespace Schema

def plan (s : Schema) : Plan :=
  { declarations := s.fields.map fun f =>
      ⟨f.name, f.type, f.arrayLength.map UInt8.toNat, f.default⟩
    slots := s.slots
    checksum := s.checksum
    magic := s.magic
    version := s.version }

def checkPlaces : List Field → List Field → Except Error Unit
  | f :: fs, p :: ps =>
    if f.offset = p.offset ∧ f.size = p.size then checkPlaces fs ps
    else .error (.invalid
      (.saveLayout f.name f.offset.toNat f.size.toNat p.offset.toNat p.size.toNat))
  | _, _ => .ok ()

/-- A schema is valid if its fields stand where building it again puts them. -/
def validate (s : Schema) : Except (Halt Error) Unit := do
  let rebuilt ← s.plan.build
  Halt.ofExcept (checkPlaces s.fields rebuilt.fields)

end Schema

end Cartridge.Save
