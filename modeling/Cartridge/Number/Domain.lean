import Cartridge.Json.Decode

/-! The integer types of the target machine. -/
namespace Cartridge

/-- How a value is represented on the target. -/
inductive Domain where
  | u8
  | i8
  | u16
  | i16
  deriving DecidableEq, Repr

namespace Domain

def all : List Domain := [.u8, .i8, .u16, .i16]

def bits : Domain → Nat
  | .u8 | .i8 => 8
  | .u16 | .i16 => 16

def isSigned : Domain → Bool
  | .i8 | .i16 => true
  | .u8 | .u16 => false

def modulus : Domain → Nat
  | .u8 | .i8 => 256
  | .u16 | .i16 => 65536

/-- The value of the domain that agrees with an integer in the domain's bits. -/
def wrap (d : Domain) (x : Int) : Int :=
  if d.isSigned then x.bmod d.modulus else x % d.modulus

def cType : Domain → String
  | .u8 => "uint8_t"
  | .i8 => "int8_t"
  | .u16 => "uint16_t"
  | .i16 => "int16_t"

def name : Domain → String
  | .u8 => "u8"
  | .i8 => "i8"
  | .u16 => "u16"
  | .i16 => "i16"

def toJson (d : Domain) : Json := .ofString d.name

def ofJson? : Nat → Json → Option Domain := Json.oneOf? all name

end Domain

end Cartridge
