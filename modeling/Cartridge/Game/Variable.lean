import Cartridge.Error
import Cartridge.Number.Domain

/-! Global variables and arrays. -/
namespace Cartridge

/-- The declared type of a variable. -/
inductive VarType where
  | u8
  | i8
  | u16
  | i16
  | bool
  | fixed
  deriving DecidableEq, Repr

namespace VarType

def all : List VarType := [.u8, .i8, .u16, .i16, .bool, .fixed]

def name : VarType → String
  | .u8 => "u8"
  | .i8 => "i8"
  | .u16 => "u16"
  | .i16 => "i16"
  | .bool => "bool"
  | .fixed => "fixed"

def domain : VarType → Domain
  | .u8 | .bool => .u8
  | .i8 => .i8
  | .u16 => .u16
  | .i16 | .fixed => .i16

def cType (t : VarType) : String := t.domain.cType

def ofJson? : Nat → Json → Option VarType := Json.oneOf? all name

end VarType

structure Variable where
  name : String
  type : VarType
  init : Int32
  deriving DecidableEq, Repr

namespace Variable

def toJson (v : Variable) : Json :=
  .ofMembers
    [("name", .ofString v.name), ("ty", .ofString v.type.name), ("init", .ofInt v.init.toInt)]

def ofJson? (depth : Nat) (j : Json) : Option Variable :=
  Json.within depth fun depth => do
    let f ← j.fields? ["name", "ty", "init"]
    return ⟨← f.need "name" Json.text?, ← f.getD "ty" .u8 (VarType.ofJson? depth),
      ← f.getD "init" 0 Json.i32?⟩

end Variable

/-- An array; elements without initializer are zero. -/
structure ArrayDecl where
  name : String
  type : VarType
  length : UInt16
  init : List Int32
  deriving DecidableEq, Repr

namespace ArrayDecl

def validate (a : ArrayDecl) : Except Error Unit :=
  if a.length = 0 then .error (.invalid (.arrayEmpty a.name))
  else if a.length.toNat < a.init.length then
    .error (.invalid (.arraySurplus a.name a.init.length a.length.toNat))
  else .ok ()

def toJson (a : ArrayDecl) : Json :=
  .ofMembers
    [("name", .ofString a.name), ("ty", .ofString a.type.name), ("len", .ofNat a.length.toNat),
      ("init", .arr (a.init.map (.ofInt ·.toInt)))]

def ofJson? (depth : Nat) (j : Json) : Option ArrayDecl :=
  Json.within depth fun depth => do
    let f ← j.fields? ["name", "ty", "len", "init"]
    return ⟨← f.need "name" Json.text?, ← f.getD "ty" .u8 (VarType.ofJson? depth),
      ← f.need "len" Json.u16?, ← f.getD "init" [] (Json.list? depth fun _ => Json.i32?)⟩

end ArrayDecl

end Cartridge
