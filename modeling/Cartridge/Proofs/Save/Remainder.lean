import Mathlib
import Cartridge.Proofs.Save.Corruption

/-!
The CRC of bytes as a remainder. Bits are coefficients over the field of two elements, so that exclusive or is
addition and a shift is multiplication by x. Taking in a bit multiplies what is left by x and divides it, and by
induction over bits and bytes the CRC is what long division of the whole message leaves.
-/
namespace Cartridge.Save.Checksum

open Polynomial

section bits

variable {w : Nat}

/-- The polynomial with the bits of a word as coefficients, the lowest bit being the constant one. -/
noncomputable def bits (v : BitVec w) : (ZMod 2)[X] := .ofFn w fun i => if v.getLsb i then 1 else 0

theorem coeff_bits (v : BitVec w) (i : Nat) : (bits v).coeff i = if v.getLsbD i then 1 else 0 := by
  by_cases hi : i < w
  · simp [bits, hi]
  · simp [bits, not_lt.mp hi]

theorem degree_bits_lt (v : BitVec w) : (bits v).degree < w := ofFn_degree_lt _

theorem bits_injective : Function.Injective (bits (w := w)) := by
  intro a b h
  refine BitVec.eq_of_getLsbD_eq fun i _ => ?_
  have hcoeff := congrArg (coeff · i) h
  simp only [coeff_bits] at hcoeff
  cases ha : a.getLsbD i <;> cases hb : b.getLsbD i <;> simp_all

theorem bits_xor (a b : BitVec w) : bits (a ^^^ b) = bits a + bits b := by
  ext i
  rw [coeff_add, coeff_bits, coeff_bits, coeff_bits, BitVec.getLsbD_xor]
  cases a.getLsbD i <;> cases b.getLsbD i <;> decide

theorem bits_zero : bits (0 : BitVec w) = 0 := by
  ext i
  simp [coeff_bits]

/-- Room for more bits adds none. -/
theorem bits_setWidth (v : BitVec w) {n : Nat} (h : w ≤ n) : bits (v.setWidth n) = bits v := by
  ext i
  rw [coeff_bits, coeff_bits, BitVec.getLsbD_setWidth]
  by_cases hi : i < n
  · simp [hi]
  · simp [hi, BitVec.getLsbD_of_ge v i (by omega)]

end bits

noncomputable def divisor : (ZMod 2)[X] := X ^ 8 + X ^ 2 + X + 1

theorem degree_divisor : divisor.degree = 8 := by
  unfold divisor
  compute_degree!

theorem monic_divisor : divisor.Monic := by
  unfold divisor
  monicity!

theorem degree_bits_lt_divisor (c : BitVec 8) : (bits c).degree < divisor.degree := by
  rw [degree_divisor]
  exact degree_bits_lt c

/-- A shift to the left loses the highest bit. -/
theorem bits_shiftLeft (c : BitVec 8) : bits (c <<< 1) + (if c.getLsbD 7 then X ^ 8 else 0) = bits c * X := by
  have hhighest (i : Nat) : (if c.getLsbD 7 then X ^ 8 else (0 : (ZMod 2)[X])).coeff i =
      if i = 8 ∧ c.getLsbD 7 then 1 else 0 := by
    split_ifs <;> simp_all [coeff_X_pow]
  ext i
  rw [coeff_add, coeff_bits, hhighest]
  rcases i with _ | i
  · simp
  · rw [coeff_mul_X, coeff_bits, BitVec.getLsbD_shiftLeft]
    rcases lt_trichotomy i 7 with hi | rfl | hi
    · simp [show i + 1 < 8 by omega, show i ≠ 7 by omega]
    · simp
    · simp [show i ≠ 7 by omega, BitVec.getLsbD_of_ge c i (by omega)]

theorem bits_seven : bits (7 : BitVec 8) = X ^ 2 + X + 1 := by
  ext i
  simp only [coeff_bits, coeff_add, coeff_X_pow, coeff_X, coeff_one]
  rcases lt_or_ge i 8 with hi | hi
  · interval_cases i <;> decide
  · simp [BitVec.getLsbD_of_ge _ i hi, show i ≠ 2 by omega, show 1 ≠ i by omega, show i ≠ 0 by omega]

theorem highest_iff (c : UInt8) : c &&& 0x80 ≠ 0 ↔ c.toBitVec.getLsbD 7 = true := by
  have hall : ∀ n : Fin 256, UInt8.ofFin n &&& 0x80 ≠ 0 ↔ (UInt8.ofFin n).toBitVec.getLsbD 7 = true := by
    decide +kernel
  exact hall c.toFin

/-- Taking in a bit is one step of long division. -/
theorem bits_crcBit (c : UInt8) : bits (crcBit c).toBitVec = (bits c.toBitVec * X) %ₘ divisor := by
  have hshift := bits_shiftLeft c.toBitVec
  have hdivision : bits (crcBit c).toBitVec + divisor * (if c.toBitVec.getLsbD 7 then 1 else 0) =
      bits c.toBitVec * X := by
    rw [crcBit]
    simp only [highest_iff]
    split_ifs with htop
    · have hstep : ((c <<< 1) ^^^ 0x07).toBitVec = c.toBitVec <<< 1 ^^^ 7 := rfl
      rw [if_pos htop] at hshift
      rw [hstep, bits_xor, bits_seven, divisor]
      linear_combination hshift + (X ^ 2 + X + 1) * (CharTwo.two_eq_zero : (2 : (ZMod 2)[X]) = 0)
    · have hstep : (c <<< 1).toBitVec = c.toBitVec <<< 1 := rfl
      rw [if_neg htop] at hshift
      rw [hstep]
      linear_combination hshift
  exact (div_modByMonic_unique _ _ monic_divisor ⟨hdivision,degree_bits_lt_divisor _⟩).2.symm

theorem modByMonic_idem (p : (ZMod 2)[X]) : p %ₘ divisor %ₘ divisor = p %ₘ divisor :=
  (modByMonic_eq_self_iff monic_divisor).mpr (degree_modByMonic_lt p monic_divisor)

/-- A factor may be divided before the product is. -/
theorem modByMonic_mul (p q : (ZMod 2)[X]) : (p %ₘ divisor * q) %ₘ divisor = (p * q) %ₘ divisor := by
  rw [mul_modByMonic, modByMonic_idem, ← mul_modByMonic]

theorem bits_iterate (n : Nat) (c : UInt8) :
    bits (crcBit^[n] c).toBitVec = (bits c.toBitVec * X ^ n) %ₘ divisor := by
  induction n with
  | zero =>
    rw [pow_zero, mul_one]
    exact ((modByMonic_eq_self_iff monic_divisor).mpr (degree_bits_lt_divisor _)).symm
  | succ n ih => rw [Function.iterate_succ_apply', bits_crcBit, ih, modByMonic_mul, mul_assoc, ← pow_succ]

/-- Taking in a byte is eight steps. -/
theorem bits_crcByte (c b : UInt8) :
    bits (crcByte c b).toBitVec = ((bits c.toBitVec + bits b.toBitVec) * X ^ 8) %ₘ divisor := by
  rw [crcByte_eq, bits_iterate, UInt8.toBitVec_xor, bits_xor]

/-- The polynomial of bytes, whose first coefficient is the highest bit of the first byte. -/
noncomputable def message : List UInt8 → (ZMod 2)[X]
  | [] => 0
  | b :: bytes => bits b.toBitVec * X ^ (8 * bytes.length) + message bytes

theorem message_append (a b : List UInt8) : message (a ++ b) = message a * X ^ (8 * b.length) + message b := by
  induction a with
  | nil => simp [message]
  | cons c a ih =>
    rw [List.cons_append, message, message, ih, List.length_append]
    ring

/-- Messages are added bit by bit. -/
theorem message_zipWith {a b : List UInt8} (h : a.length = b.length) :
    message (List.zipWith (· ^^^ ·) a b) = message a + message b := by
  induction a generalizing b with
  | nil =>
    rw [List.length_eq_zero_iff.mp h.symm]
    simp [message]
  | cons x a ih =>
    obtain _ | ⟨y,b⟩ := b
    · cases h
    · have hlength : a.length = b.length := Nat.succ.inj h
      rw [List.zipWith_cons_cons, message, message, message, ih hlength, UInt8.toBitVec_xor, bits_xor,
        List.length_zipWith, hlength, min_self]
      ring

/-- What is left after some bytes is divided on together with those that follow. -/
theorem bits_foldl (bytes : List UInt8) (c : UInt8) : bits (bytes.foldl crcByte c).toBitVec =
    (bits c.toBitVec * X ^ (8 * bytes.length) + message bytes * X ^ 8) %ₘ divisor := by
  induction bytes generalizing c with
  | nil =>
    have hself := bits_iterate 0 c
    simpa [message] using hself
  | cons b bytes ih =>
    rw [List.foldl_cons, ih, bits_crcByte, add_modByMonic, modByMonic_mul, ← add_modByMonic, message,
      List.length_cons]
    ring_nf

/-- The CRC of a message is what the division of the message by x^8 + x^2 + x + 1 leaves, eight zero bits being
appended. -/
theorem bits_crc (bytes : List UInt8) : bits (crc bytes).toBitVec = (message bytes * X ^ 8) %ₘ divisor := by
  have hzero : bits (0 : UInt8).toBitVec = 0 := bits_zero
  rw [crc, bits_foldl, hzero, zero_mul, zero_add]

theorem crc_zipWith {a b : List UInt8} (h : a.length = b.length) :
    crc (List.zipWith (· ^^^ ·) a b) = crc a ^^^ crc b := by
  have hbits : bits (crc (List.zipWith (· ^^^ ·) a b)).toBitVec = bits (crc a ^^^ crc b).toBitVec := by
    rw [bits_crc, message_zipWith h, add_mul, add_modByMonic, UInt8.toBitVec_xor, bits_xor, bits_crc, bits_crc]
  exact UInt8.toBitVec_inj.mp (bits_injective hbits)

/-- A message with its own CRC behind it is a multiple of the divisor. -/
theorem crc_append_crc (bytes : List UInt8) : crc (bytes ++ [crc bytes]) = 0 := by
  have hmessage : message (bytes ++ [crc bytes]) %ₘ divisor = 0 := by
    rw [message_append, message, message, List.length_singleton, List.length_nil, mul_zero, pow_zero, mul_one,
      add_zero, mul_one, add_modByMonic, bits_crc, modByMonic_idem, CharTwo.add_self_eq_zero]
  have hbits : bits (crc (bytes ++ [crc bytes])).toBitVec = bits (0 : UInt8).toBitVec := by
    rw [bits_crc, ← modByMonic_mul, hmessage, zero_mul, zero_modByMonic]
    exact bits_zero.symm
  exact UInt8.toBitVec_inj.mp (bits_injective hbits)

/-- The CRC of bytes is the remainder of their polynomial times x^8 by x^8 + x^2 + x + 1; so it is linear in bytes of
one number, and zero of bytes that their own checksum follows. -/
theorem crc8_is_remainder :
    (∀ data, bits (crc8.compute data).toBitVec = (message data * X ^ 8) %ₘ (X ^ 8 + X ^ 2 + X + 1)) ∧
    (∀ a b : List UInt8, a.length = b.length →
      crc8.compute (List.zipWith (· ^^^ ·) a b) = crc8.compute a ^^^ crc8.compute b) ∧
    ∀ data, crc8.compute (data ++ crc8.encode (crc8.compute data)) = 0 := by
  refine ⟨fun data => ?_,fun a b h => ?_,fun data => ?_⟩
  · have hword : (crc8.compute data).toBitVec = (crc data).toBitVec.setWidth 16 := rfl
    rw [hword, bits_setWidth _ (by decide), bits_crc, divisor]
  · have hcrc := congrArg UInt8.toUInt16 (crc_zipWith h)
    rwa [UInt8.toUInt16_xor] at hcrc
  · have hbyte : crc8.encode (crc8.compute data) = [crc data] := by simp [encode, size, compute]
    rw [hbyte]
    exact congrArg UInt8.toUInt16 (crc_append_crc data)

/-- The digits from 1 to 9 as text. -/
example : crc8.compute [0x31, 0x32, 0x33, 0x34, 0x35, 0x36, 0x37, 0x38, 0x39] = 0xF4 := by decide +kernel

theorem crc8_is_remainder_of_masked :
    [0x31, 0x32, 0x33].length = ([0xFF, 0x00, 0x80] : List UInt8).length ∧
      crc8.compute [0xCE, 0x32, 0xB3] = crc8.compute [0x31, 0x32, 0x33] ^^^ crc8.compute [0xFF, 0x00, 0x80] :=
  ⟨rfl,crc8_is_remainder.2.1 [0x31, 0x32, 0x33] [0xFF, 0x00, 0x80] rfl⟩

end Cartridge.Save.Checksum
