import Mathlib.Logic.Function.Iterate
import Mathlib.Tactic.Common
import Cartridge.Proofs.Save.Bytes

/-!
A change of one byte of a valid slot is noticed. Each checksum takes in one byte after the other and
forgets neither the byte nor what came before it, so bytes that differ at one place have different sums;
and the slot stores all of the sum.
-/
namespace Cartridge.Save

namespace Checksum

/-- Taking in a byte forgets neither the byte nor what came before it. -/
structure Separates {α : Type} (step : α → UInt8 → α) : Prop where
  state : ∀ b, Function.Injective (step · b)
  byte : ∀ a, Function.Injective (step a)

namespace Separates

variable {α : Type} {step : α → UInt8 → α} (h : Separates step)

include h

theorem foldl_injective (bytes : List UInt8) : Function.Injective (bytes.foldl step) := by
  induction bytes with
  | nil => exact fun _ _ he => he
  | cons b bytes ih => exact fun _ _ he => h.state b (ih he)

/-- A byte that can be replaced without a trace is the same byte. -/
theorem eq_of_foldl_set {bytes : List UInt8} {position : Nat} {old new : UInt8} {start : α}
    (hold : bytes[position]? = some old)
    (he : (bytes.set position new).foldl step start = bytes.foldl step start) : new = old := by
  induction bytes generalizing position start with
  | nil => cases hold
  | cons b bytes ih =>
    cases position with
    | zero =>
      cases hold
      exact h.byte start (h.foldl_injective bytes he)
    | succ position => exact ih hold he

end Separates

theorem separates_xor : Separates fun a b : UInt8 => a ^^^ b where
  state b _ _ he := (UInt8.xor_left_inj b).mp he
  byte a _ _ he := (UInt8.xor_right_inj a).mp he

private def undoCrcBit (crc : UInt8) : UInt8 :=
  if crc &&& 1 ≠ 0 then (crc ^^^ 0x07) >>> 1 ||| 0x80 else crc >>> 1

private theorem undoCrcBit_crcBit (crc : UInt8) : undoCrcBit (crcBit crc) = crc := by
  have hall : ∀ n : Fin 256, undoCrcBit (crcBit (.ofFin n)) = .ofFin n := by decide +kernel
  exact hall crc.toFin

theorem crcByte_eq (crc b : UInt8) : crcByte crc b = crcBit^[8] (crc ^^^ b) := rfl

theorem separates_crcByte : Separates crcByte := by
  have hbits : Function.Injective crcBit^[8] :=
    (Function.LeftInverse.injective undoCrcBit_crcBit).iterate 8
  constructor
  · intro b x y he
    simp only [crcByte_eq] at he
    exact separates_xor.state b (hbits he)
  · intro a x y he
    rw [crcByte_eq, crcByte_eq] at he
    exact separates_xor.byte a (hbits he)

theorem separates_sum : Separates fun (sum : UInt16) b => sum + b.toUInt16 where
  state _ _ _ he := (UInt16.add_left_inj _).mp he
  byte _ _ _ he := UInt8.toUInt16_inj.mp ((UInt16.add_right_inj _).mp he)

/-- A sum is stored in full. -/
theorem encode_sum16_injective : Function.Injective (Checksum.sum16.encode) := by
  intro a b he
  obtain ⟨hlow,hhigh⟩ : a.toUInt8 = b.toUInt8 ∧ (a >>> 8).toUInt8 = (b >>> 8).toUInt8 := by
    simpa [encode, size] using he
  rw [← UInt16.toNat_inj, ← toNat_bytes a, ← toNat_bytes b, hlow, hhigh]

/-- A checksum notices when one byte is replaced by another. -/
theorem eq_of_encode_compute {c : Checksum} (hc : c ≠ .none) {bytes : List UInt8} {position : Nat}
    {old new : UInt8} (hold : bytes[position]? = some old)
    (he : c.encode (c.compute (bytes.set position new)) = c.encode (c.compute bytes)) : new = old := by
  cases c with
  | none => exact absurd rfl hc
  | xor => exact separates_xor.eq_of_foldl_set hold (by simpa [encode, size, compute] using he)
  | crc8 => exact separates_crcByte.eq_of_foldl_set hold (by simpa [encode, size, compute, crc] using he)
  | sum16 => exact separates_sum.eq_of_foldl_set hold (encode_sum16_injective he)

end Checksum

namespace Image

def stored (i : Image) : List UInt8 :=
  (i.bytes.drop i.schema.checksumOffset).take i.schema.checksum.size

theorem stored_of_isValid {i : Image} (h : i.isValid = true) : i.stored = i.checksumBytes :=
  of_decide_eq_true (Bool.and_eq_true_iff.mp h).2

variable {i : Image} {position : Nat} {old new : UInt8}

/-- A byte before the checksum cannot be replaced by another in two valid slots. -/
theorem eq_of_covered (hsum : i.schema.checksum ≠ .none) (hold : i.bytes[position]? = some old)
    (hcovered : position < i.schema.checksumOffset) (hvalid : i.isValid = true)
    (hpoked : (Image.mk i.schema (i.bytes.set position new)).isValid = true) : new = old := by
  have hsame : (Image.mk i.schema (i.bytes.set position new)).stored = i.stored := by
    rw [stored, stored, List.drop_set_of_lt hcovered]
  rw [stored_of_isValid hpoked, stored_of_isValid hvalid, checksumBytes, checksumBytes, List.take_set] at hsame
  exact Checksum.eq_of_encode_compute hsum (by rwa [List.getElem?_take_of_lt hcovered]) hsame

/-- Nor can a byte of the checksum. -/
theorem eq_of_not_covered (hslot : i.bytes.length = i.schema.slotSize) (hold : i.bytes[position]? = some old)
    (hcovered : i.schema.checksumOffset ≤ position) (hvalid : i.isValid = true)
    (hpoked : (Image.mk i.schema (i.bytes.set position new)).isValid = true) : new = old := by
  have hsame : (Image.mk i.schema (i.bytes.set position new)).checksumBytes = i.checksumBytes := by
    rw [checksumBytes, checksumBytes, List.take_set_of_le hcovered]
  rw [← stored_of_isValid hpoked, ← stored_of_isValid hvalid] at hsame
  have hlt : position < i.bytes.length := (List.getElem?_eq_some_iff.mp hold).1
  have hstored : position - i.schema.checksumOffset < i.schema.checksum.size := by
    rw [hslot, Schema.slotSize] at hlt
    omega
  have hbyte := congrArg (fun bytes => bytes[position - i.schema.checksumOffset]?) hsame
  simp only [stored, List.getElem?_take_of_lt hstored, List.getElem?_drop,
    Nat.add_sub_cancel' hcovered, List.getElem?_set_self hlt, hold] at hbyte
  exact Option.some.inj hbyte

end Image

/-- In a valid slot of any schema with a checksum, a change of one byte, wherever it stands, makes the
slot invalid. -/
theorem changed_byte_is_detected {i : Image} (hsum : i.schema.checksum ≠ .none)
    (hslot : i.bytes.length = i.schema.slotSize) (hvalid : i.isValid = true) {position : Nat}
    {old new : UInt8} (hold : i.bytes[position]? = some old) (hne : new ≠ old) :
    ∃ j, i.poke? position new = some j ∧ j.isValid = false := by
  have hlt : position < i.bytes.length := (List.getElem?_eq_some_iff.mp hold).1
  refine ⟨⟨i.schema,i.bytes.set position new⟩,by rw [Image.poke?, if_pos hlt],?_⟩
  by_contra hpoked
  rw [Bool.not_eq_false] at hpoked
  rcases Nat.lt_or_ge position i.schema.checksumOffset with hcovered | hcovered
  · exact hne (Image.eq_of_covered hsum hold hcovered hvalid hpoked)
  · exact hne (Image.eq_of_not_covered hslot hold hcovered hvalid hpoked)

def coinSchema : Schema where
  fields := [⟨"coins", .u16, 1, 2, none, 500⟩, ⟨"lives", .u8, 3, 1, none, 3⟩]
  slots := 1
  checksum := .crc8
  magic := none
  version := 1

theorem coinSchema_change_is_detected :
    (Image.new coinSchema).isValid = true ∧
      ∃ j, (Image.new coinSchema).poke? 2 254 = some j ∧ j.isValid = false := by
  have hvalid : (Image.new coinSchema).isValid = true := by decide +kernel
  have hold : (Image.new coinSchema).bytes[2]? = some 1 := by decide +kernel
  exact ⟨hvalid,changed_byte_is_detected (by decide) (by decide +kernel) hvalid hold (by decide)⟩

end Cartridge.Save
