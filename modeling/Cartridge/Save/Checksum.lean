import Cartridge.Json.Decode

/-! Integrity checks over bytes. -/
namespace Cartridge.Save

inductive Checksum where
  | none
  | xor
  | crc8
  | sum16
  deriving DecidableEq, Repr

namespace Checksum

def all : List Checksum := [.none, .xor, .crc8, .sum16]

def name : Checksum → String
  | .none => "none"
  | .xor => "xor"
  | .crc8 => "crc8"
  | .sum16 => "sum16"

def size : Checksum → Nat
  | .none => 0
  | .xor | .crc8 => 1
  | .sum16 => 2

/-- One bit of division by x^8 + x^2 + x + 1. -/
def crcBit (crc : UInt8) : UInt8 :=
  if crc &&& 0x80 ≠ 0 then (crc <<< 1) ^^^ 0x07 else crc <<< 1

/-- Takes in one byte, highest bit first. -/
def crcByte (crc b : UInt8) : UInt8 :=
  (List.range 8).foldl (fun crc _ => crcBit crc) (crc ^^^ b)

def crc (bytes : List UInt8) : UInt8 := bytes.foldl crcByte 0

def compute (c : Checksum) (bytes : List UInt8) : UInt16 :=
  match c with
  | .none => 0
  | .xor => (bytes.foldl (· ^^^ ·) 0).toUInt16
  | .crc8 => (crc bytes).toUInt16
  | .sum16 => bytes.foldl (fun sum b => sum + b.toUInt16) 0

def encode (c : Checksum) (sum : UInt16) : List UInt8 :=
  [sum.toUInt8, (sum >>> 8).toUInt8].take c.size

def toJson (c : Checksum) : Json := .ofString c.name

def ofJson? : Nat → Json → Option Checksum := Json.oneOf? all name

end Checksum

end Cartridge.Save
