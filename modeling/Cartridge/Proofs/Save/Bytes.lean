import Mathlib.Tactic.Common
import Cartridge.Save.Image

/-!
The bytes of a slot and the values they stand for: writing replaces one part and leaves what stands
before and behind it, and an encoded value is read back cut to its type.
-/
namespace Cartridge.Save

/-- A word is its lower byte and 256 times its upper one. -/
theorem toNat_bytes (word : UInt16) :
    word.toUInt8.toNat + 256 * (word >>> 8).toUInt8.toNat = word.toNat := by
  have hlt := word.toNat_lt
  have hshift : (word >>> 8).toNat = word.toNat / 256 := by
    rw [UInt16.toNat_shiftRight, Nat.shiftRight_eq_div_pow]
    rfl
  rw [UInt16.toNat_toUInt8, UInt16.toNat_toUInt8, hshift]
  omega

namespace FieldType

/-- A value cut to what a type holds: modulo the number of its values, in two's complement where it is
signed, and to a truth value by its lower byte. -/
def reduce (t : FieldType) (value : Int) : Int :=
  match t with
  | .u8 => value % 256
  | .i8 => value.bmod 256
  | .u16 => value % 65536
  | .i16 | .fixed => value.bmod 65536
  | .bool => if value % 256 = 0 then 0 else 1

@[simp] theorem length_encode (t : FieldType) (value : Int) : (t.encode value).length = t.size := by
  cases t <;> rfl

private theorem toNat_ofInt (value : Int) : ((UInt16.ofInt value).toNat : Int) = value % 65536 := by
  rw [UInt16.ofInt, UInt16.toNat_ofNat']
  omega

private theorem toNat_low (value : Int) : ((UInt16.ofInt value).toUInt8.toNat : Int) = value % 256 := by
  have hword := toNat_ofInt value
  rw [UInt16.toNat_toUInt8]
  omega

private theorem toNat_word (value : Int) :
    ((UInt16.ofInt value).toUInt8.toNat : Int) + 256 * (UInt16.ofInt value >>> 8).toUInt8.toNat =
      value % 65536 := by
  have hword := toNat_ofInt value
  have hbytes := toNat_bytes (.ofInt value)
  omega

/-- An encoded value is read back cut to its type, whatever follows it. -/
theorem decode_encode_append (t : FieldType) (value : Int) (rest : List UInt8) :
    t.decode (t.encode value ++ rest) = t.reduce value := by
  have hlow := toNat_low value
  have hword := toNat_word value
  cases t with
  | u8 => exact hlow
  | i8 =>
    change ((UInt16.ofInt value).toUInt8.toNat : Int).bmod 256 = value.bmod 256
    rw [hlow]
    exact Int.emod_bmod value _
  | u16 => exact hword
  | i16 | fixed =>
    change (((UInt16.ofInt value).toUInt8.toNat : Int) +
      256 * (UInt16.ofInt value >>> 8).toUInt8.toNat).bmod 65536 = value.bmod 65536
    rw [hword]
    exact Int.emod_bmod value _
  | bool =>
    change (if (UInt16.ofInt value).toUInt8.toNat = 0 then (0 : Int) else 1) =
      if value % 256 = 0 then 0 else 1
    simp only [← hlow, Int.natCast_eq_zero]

end FieldType

@[simp] theorem Checksum.length_encode (c : Checksum) (sum : UInt16) : (c.encode sum).length = c.size := by
  cases c <;> rfl

namespace Image

/-- A part stands in the bytes from a position on. -/
def Holds (bytes : List UInt8) (position : Nat) (part : List UInt8) : Prop :=
  (bytes.drop position).take part.length = part

/-- Writing replaces as many bytes as are written. -/
theorem write_eq {bytes part : List UInt8} {position : Nat} (h : position + part.length ≤ bytes.length) :
    write bytes position part =
      bytes.take position ++ (part ++ bytes.drop (position + part.length)) := by
  induction part generalizing bytes position with
  | nil => simp [write]
  | cons b part ih =>
    rw [List.length_cons] at h ⊢
    rw [write, ih (by rw [List.length_set]; omega), List.drop_set_of_lt (by omega)]
    have htake : (bytes.set position b).take (position + 1) = bytes.take position ++ [b] := by
      rw [List.set_eq_take_append_cons_drop, if_pos (by omega), List.take_append,
        List.take_take, Nat.min_eq_right (Nat.le_succ _), List.length_take_of_le (by omega),
        Nat.add_sub_cancel_left]
      rfl
    rw [htake, List.append_assoc, show position + 1 + part.length = position + (part.length + 1) by omega]
    rfl

section

variable {bytes part : List UInt8} {position : Nat} (h : position + part.length ≤ bytes.length)

include h

theorem length_write : (write bytes position part).length = bytes.length := by
  rw [write_eq h]
  simp
  omega

theorem take_write {n : Nat} (hn : n ≤ position) :
    (write bytes position part).take n = bytes.take n := by
  rw [write_eq h, List.take_append_of_le_length (by simp; omega), List.take_take, Nat.min_eq_left hn]

theorem drop_write {n : Nat} (hn : position + part.length ≤ n) :
    (write bytes position part).drop n = bytes.drop n := by
  have hlength : (bytes.take position ++ part).length = position + part.length := by simp; omega
  rw [write_eq h, ← List.append_assoc, List.drop_append, hlength, List.drop_drop,
    List.drop_eq_nil_of_le (by omega), List.nil_append, Nat.add_sub_cancel' hn]

/-- What is written stands there. -/
theorem holds_write : Holds (write bytes position part) position part := by
  have hlength : (bytes.take position).length = position := by simp; omega
  rw [Holds, write_eq h]
  nth_rewrite 1 [← hlength]
  rw [List.drop_left, List.take_left]

/-- What stands elsewhere stays. -/
theorem Holds.write {other : List UInt8} {elsewhere : Nat} (ho : Holds bytes elsewhere other)
    (hapart : elsewhere + other.length ≤ position ∨ position + part.length ≤ elsewhere) :
    Holds (write bytes position part) elsewhere other := by
  rcases hapart with hbefore | hbehind
  · rw [Holds, List.take_drop, take_write h hbefore, ← List.take_drop]
    exact ho
  · rw [Holds, drop_write h hbehind]
    exact ho

end

/-- A value that stands in the bytes is read there, cut to its type. -/
theorem Holds.decode_drop {bytes : List UInt8} {position : Nat} {t : FieldType} {value : Int}
    (h : Holds bytes position (t.encode value)) : t.decode (bytes.drop position) = t.reduce value := by
  rw [Holds, FieldType.length_encode] at h
  rw [← List.take_append_drop t.size (bytes.drop position), h, FieldType.decode_encode_append]

end Image

end Cartridge.Save
