import Mathlib.Data.Int.Bitwise

/-! Bitwise operations on integers, read as two's complement words without end, and their part in
a word of fixed width. -/
namespace Cartridge.Bits

/-- Integers with the same bits are equal: past the end one sign shows zeros, the other ones. -/
theorem eq_of_testBit {a b : Int} (h : ∀ k, a.testBit k = b.testBit k) : a = b := by
  have clash (m n : Nat) (hk : ∀ k, m.testBit k = !n.testBit k) : False := by
    have hm : m.testBit (m + n) = false :=
      Nat.testBit_eq_false_of_lt ((Nat.le_add_right m n).trans_lt Nat.lt_two_pow_self)
    have hn : n.testBit (m + n) = false :=
      Nat.testBit_eq_false_of_lt ((Nat.le_add_left n m).trans_lt Nat.lt_two_pow_self)
    simpa [hm, hn] using hk (m + n)
  cases a with
  | ofNat m =>
    cases b with
    | ofNat n => exact congrArg Int.ofNat (Nat.eq_of_testBit_eq h)
    | negSucc n => exact (clash m n h).elim
  | negSucc m =>
    cases b with
    | ofNat n => exact (clash n m fun k => (h k).symm).elim
    | negSucc n =>
      have he : m = n := Nat.eq_of_testBit_eq fun k => by simpa [Int.testBit] using h k
      rw [he]

theorem land_assoc (a b c : Int) : (a.land b).land c = a.land (b.land c) :=
  eq_of_testBit fun k => by simp [Bool.and_assoc]

theorem lor_assoc (a b c : Int) : (a.lor b).lor c = a.lor (b.lor c) :=
  eq_of_testBit fun k => by simp [Bool.or_assoc]

theorem xor_assoc (a b c : Int) : (a.xor b).xor c = a.xor (b.xor c) :=
  eq_of_testBit fun k => by simp

@[simp] theorem testBit_zero (k : Nat) : Int.testBit 0 k = false := Nat.zero_testBit k

@[simp] theorem land_zero (a : Int) : a.land 0 = 0 := eq_of_testBit fun k => by simp
@[simp] theorem zero_land (a : Int) : Int.land 0 a = 0 := eq_of_testBit fun k => by simp
@[simp] theorem lor_zero (a : Int) : a.lor 0 = a := eq_of_testBit fun k => by simp
@[simp] theorem zero_lor (a : Int) : Int.lor 0 a = a := eq_of_testBit fun k => by simp
@[simp] theorem xor_zero (a : Int) : a.xor 0 = a := eq_of_testBit fun k => by simp
@[simp] theorem zero_xor (a : Int) : Int.xor 0 a = a := eq_of_testBit fun k => by simp
@[simp] theorem land_self (a : Int) : a.land a = a := eq_of_testBit fun k => by simp
@[simp] theorem lor_self (a : Int) : a.lor a = a := eq_of_testBit fun k => by simp
@[simp] theorem xor_self (a : Int) : a.xor a = 0 := eq_of_testBit fun k => by simp

theorem land_nonneg {a b : Int} (h : 0 ≤ a ∨ 0 ≤ b) : 0 ≤ a.land b := by
  cases a <;> cases b <;> simp_all [Int.land]

theorem lor_nonneg {a b : Int} (ha : 0 ≤ a) (hb : 0 ≤ b) : 0 ≤ a.lor b := by
  cases a <;> cases b <;> simp_all [Int.lor]

theorem xor_nonneg {a b : Int} (ha : 0 ≤ a) (hb : 0 ≤ b) : 0 ≤ a.xor b := by
  cases a <;> cases b <;> simp_all [Int.xor]

@[simp] theorem getElem_ofInt (w : Nat) (a : Int) (k : Nat) (hk : k < w) :
    (BitVec.ofInt w a)[k] = a.testBit k := by
  have hn (m : Nat) : (BitVec.ofNat w m)[k] = m.testBit k := by
    simp [← BitVec.getLsbD_eq_getElem, BitVec.getLsbD_ofNat, hk]
  cases a with
  | ofNat m => simp [BitVec.ofInt_natCast, Int.testBit, hn]
  | negSucc m => simp [BitVec.ofInt_negSucc_eq_not_ofNat, Int.testBit, hn]

theorem ofInt_land (w : Nat) (a b : Int) :
    BitVec.ofInt w (a.land b) = BitVec.ofInt w a &&& BitVec.ofInt w b := by
  ext k hk
  simp

theorem ofInt_lor (w : Nat) (a b : Int) :
    BitVec.ofInt w (a.lor b) = BitVec.ofInt w a ||| BitVec.ofInt w b := by
  ext k hk
  simp

theorem ofInt_xor (w : Nat) (a b : Int) :
    BitVec.ofInt w (a.xor b) = BitVec.ofInt w a ^^^ BitVec.ofInt w b := by
  ext k hk
  simp

theorem ofInt_lnot (w : Nat) (a : Int) : BitVec.ofInt w a.lnot = ~~~BitVec.ofInt w a := by
  ext k hk
  simp

end Cartridge.Bits
