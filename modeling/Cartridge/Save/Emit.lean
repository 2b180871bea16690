import Cartridge.Code.Construct
import Cartridge.Lower.Stmt

/-!
Save data in the generated program: accessors work on a copy of one slot, and whole slots are moved
between the copy and the cartridge's memory.
-/
namespace Cartridge.Save.Emit

open Code Code.Emission Lower

def reset : Header := .procedure "save_reset"

def validate : Header := ⟨"save_validate", "uint8_t save_validate(void)"⟩

def commit : Header := ⟨"save_commit", "void save_commit(uint8_t slot)"⟩

def load : Header := ⟨"save_load", "uint8_t save_load(uint8_t slot)"⟩

def getter (f : Field) : Header :=
  let name := "save_get_" ++ Name.ident f.name
  let params := if f.arrayLength.isSome then "uint8_t i" else "void"
  ⟨name, s!"{f.type.cType} {name}({params})"⟩

def setter (f : Field) : Header :=
  let name := "save_set_" ++ Name.ident f.name
  let subscript := if f.arrayLength.isSome then "uint8_t i, " else ""
  ⟨name, s!"void {name}({subscript}{f.type.cType} v)"⟩

def headers (schema : Schema) : List Header :=
  [reset, validate, commit, load] ++ schema.fields.flatMap fun f => [getter f, setter f]

def prototypes (s : Scope) : List String :=
  match s.game.save with
  | some schema => (headers schema).map Header.prototype
  | none => []

def offsetName (f : Field) : String := "SAVE_OFF_" ++ Name.upper f.name

def lengthName (f : Field) : String := s!"SAVE_{Name.upper f.name}_LEN"

def fieldConstants (f : Field) : List String :=
  constant (offsetName f) f.offset.toNat
    :: (f.arrayLength.map fun n => constant (lengthName f) n.toNat).toList

def magicText (m : Magic) : String :=
  s!"static const uint8_t save_magic[4] = {initializer (m.toList.map Text.hexByte)};"

def layout (schema : Schema) : List String :=
  [constant "SAVE_SLOTS" schema.slots.toNat, constant "SAVE_SLOT_SIZE" schema.slotSize,
      constant "SAVE_VERSION" schema.version.toNat,
      constant "SAVE_OFF_VERSION" schema.versionOffset,
      constant "SAVE_OFF_CHECKSUM" schema.checksumOffset]
    ++ schema.fields.flatMap fieldConstants
    ++ (schema.magic.map magicText).toList
    ++ ["uint8_t save_buf[SAVE_SLOT_SIZE];"]

def checksum : Header :=
  ⟨"save_checksum", "static uint16_t save_checksum(const uint8_t *p, uint16_t n)"⟩

def crcBody : Emission Unit := do
  verbatim ["uint8_t crc = 0;", "uint8_t b;"]
  block "while (n--)"
  line "crc ^= *p++;"
  braced "for (b = 0; b < 8; b++)"
    ["crc = (crc & 0x80) ? (uint8_t)((crc << 1) ^ 0x07) : (uint8_t)(crc << 1);"]
  close
  line "return crc;"

def checksumFunction : Checksum → Emission Unit
  | .none => return ()
  | .xor => function checksum (verbatim
      ["uint8_t x = 0;", "while (n--) x ^= *p++;", "return x;"])
  | .crc8 => function checksum crcBody
  | .sum16 => function checksum (verbatim
      ["uint16_t s = 0;", "while (n--) s += *p++;", "return s;"])

def elementOffset (s : Scope) (f : Field) : String :=
  if f.arrayLength.isNone then offsetName f else
    let index := if s.options.boundsChecks then s!"BOUNDS_CHECK(i, {lengthName f})" else "i"
    if f.type.size = 1 then s!"{offsetName f} + {index}"
    else s!"{offsetName f} + {index} * {f.type.size}"

def namesOffset (f : Field) : Bool := f.arrayLength.isSome || f.type.size = 2

def offsetLines (s : Scope) (f : Field) : List String :=
  if namesOffset f then [s!"uint16_t o = {elementOffset s f};"] else []

def offsetText (s : Scope) (f : Field) : String :=
  if namesOffset f then "o" else elementOffset s f

def readText (t : FieldType) (o : String) : String :=
  match t with
  | .u8 => s!"save_buf[{o}]"
  | .bool => s!"save_buf[{o}] != 0"
  | .i8 => s!"(int8_t)save_buf[{o}]"
  | .u16 | .i16 | .fixed =>
    s!"({t.cType})(save_buf[{o}] | ((uint16_t)save_buf[{o} + 1] << 8))"

def writeLines (t : FieldType) (o : String) : List String :=
  match t with
  | .bool => [s!"save_buf[{o}] = v != 0;"]
  | .u8 | .i8 => [s!"save_buf[{o}] = (uint8_t)v;"]
  | .u16 | .i16 | .fixed =>
    [s!"save_buf[{o}] = (uint8_t)v;", s!"save_buf[{o} + 1] = (uint8_t)((uint16_t)v >> 8);"]

def accessors (s : Scope) (f : Field) : Emission Unit := do
  let o := offsetText s f
  function (getter f) (verbatim (offsetLines s f ++ [s!"return {readText f.type o};"]))
  function (setter f) (verbatim (offsetLines s f ++ writeLines f.type o))

def headerLines (schema : Schema) : List String :=
  (if schema.magic.isSome then ["memcpy(save_buf, save_magic, 4);"] else [])
    ++ ["save_buf[SAVE_OFF_VERSION] = SAVE_VERSION;"]

/-- The line that gives a field its default, unless that is zero. -/
def defaultLine (f : Field) : Option String :=
  if f.default = 0 then none
  else if f.arrayLength.isSome then
    some s!"for (i = 0; i < {lengthName f}; i++) {(setter f).name}(i, {f.default.toInt});"
  else some s!"{(setter f).name}({f.default.toInt});"

def resetLines (schema : Schema) : List String :=
  (if schema.fields.any fun f => f.arrayLength.isSome then ["uint8_t i;"] else [])
    ++ ["memset(save_buf, 0, SAVE_SLOT_SIZE);"] ++ headerLines schema
    ++ schema.fields.filterMap defaultLine

def validateLines (schema : Schema) : List String :=
  (if schema.magic.isSome then ["if (memcmp(save_buf, save_magic, 4) != 0) return 0;"] else [])
    ++ ["if (save_buf[SAVE_OFF_VERSION] != SAVE_VERSION) return 0;"]
    ++ match schema.checksum with
      | .none => ["return 1;"]
      | .xor | .crc8 =>
        ["return save_buf[SAVE_OFF_CHECKSUM] == "
          ++ "(uint8_t)save_checksum(save_buf, SAVE_OFF_CHECKSUM);"]
      | .sum16 =>
        ["uint16_t stored = save_buf[SAVE_OFF_CHECKSUM] | "
            ++ "((uint16_t)save_buf[SAVE_OFF_CHECKSUM + 1] << 8);",
          "return stored == save_checksum(save_buf, SAVE_OFF_CHECKSUM);"]

def sealLines : Checksum → List String
  | .none => []
  | .xor | .crc8 =>
    ["sum = save_checksum(save_buf, SAVE_OFF_CHECKSUM);",
      "save_buf[SAVE_OFF_CHECKSUM] = (uint8_t)sum;"]
  | .sum16 =>
    ["sum = save_checksum(save_buf, SAVE_OFF_CHECKSUM);",
      "save_buf[SAVE_OFF_CHECKSUM] = (uint8_t)sum;",
      "save_buf[SAVE_OFF_CHECKSUM + 1] = (uint8_t)(sum >> 8);"]

def slotAddress : String := "(uint8_t *)0xA000 + slot * SAVE_SLOT_SIZE"

def commitLines (schema : Schema) : List String :=
  (if schema.checksum = .none then [] else ["uint16_t sum;"])
    ++ ["if (slot >= SAVE_SLOTS) return;"] ++ headerLines schema ++ sealLines schema.checksum
    ++ ["ENABLE_RAM;", s!"memcpy({slotAddress}, save_buf, SAVE_SLOT_SIZE);", "DISABLE_RAM;"]

def loadBody : Emission Unit := do
  verbatim ["if (slot >= SAVE_SLOTS) return 0;", "ENABLE_RAM;",
    s!"memcpy(save_buf, {slotAddress}, SAVE_SLOT_SIZE);", "DISABLE_RAM;"]
  braced "if (!save_validate())" ["save_reset();", "return 0;"]
  line "return 1;"

def schema (s : Scope) (schema : Schema) : Emission Unit := do
  ofHalt schema.validate
  banner
  verbatim (layout schema)
  blank
  checksumFunction schema.checksum
  each (accessors s) schema.fields
  function reset (verbatim (resetLines schema))
  function validate (verbatim (validateLines schema))
  function commit (verbatim (commitLines schema))
  function load loadBody

def emit (s : Scope) : Emission Unit :=
  match s.game.save with
  | some layout => schema s layout
  | none => return ()

end Cartridge.Save.Emit
