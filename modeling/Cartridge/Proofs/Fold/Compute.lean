import Mathlib.Tactic
import Cartridge.Expr.Fold
import Cartridge.Proofs.Expr.Value
import Cartridge.Proofs.Number.Wrap

/-!
Operations in a domain: results are wrapped into it and stay there. What a folder makes of literals is
what the operation has for a value, and the neutral, absorbing and scaled operands of its rules are those
of the operations.
-/
namespace Cartridge

def BinOp.isWrapped : BinOp → Bool
  | .mul | .div | .mod | .add | .sub | .shl | .bitAnd | .bitXor | .bitOr => true
  | _ => false

namespace Domain

/-- An operation in the domain. Shifts have a value for amounts below the width only. -/
def compute? (d : Domain) (op : BinOp) (a b : Int) : Option Int :=
  if (op = .shl ∨ op = .shr) ∧ ¬ (0 ≤ b ∧ b < d.bits) then none
  else (op.value? a b).map fun x => if op.isWrapped then d.wrap x else x

def computeUnary (d : Domain) (op : UnOp) (a : Int) : Int :=
  match op with
  | .not => op.value a
  | _ => d.wrap (op.value a)

theorem fits_shiftRight {d : Domain} {a : Int} (h : d.Fits a) (k : Nat) : d.Fits (a.shiftRight k) := by
  have hp : (0 : Int) < 2 ^ k := by positivity
  have he : a.shiftRight k = a / 2 ^ k := Int.shiftRight_eq_div_pow a k
  rw [he]
  obtain ⟨hl,hg⟩ := h
  have hz := d.fits_zero
  constructor
  · rcases le_or_gt 0 a with ha | ha
    · exact hz.1.trans (Int.ediv_nonneg ha hp.le)
    · refine hl.trans ((Int.le_ediv_iff_mul_le hp).mpr ?_)
      nlinarith
  · rcases le_or_gt 0 a with ha | ha
    · exact (Int.ediv_le_self _ ha).trans hg
    · exact (Int.ediv_neg_of_neg_of_pos ha hp).le.trans hz.2

theorem fits_truthValue (d : Domain) (p : Prop) [Decidable p] : d.Fits (truthValue p) := by
  unfold truthValue
  split
  · exact d.fits_one
  · exact d.fits_zero

/-- Operations in a domain stay in it. -/
theorem fits_compute? {d : Domain} {op : BinOp} {a b x : Int} (ha : d.Fits a)
    (h : d.compute? op a b = some x) : d.Fits x := by
  unfold compute? at h
  split at h
  · cases h
  · obtain ⟨y,hy,rfl⟩ := Option.map_eq_some_iff.mp h
    split
    · exact d.fits_wrap y
    · cases op with
      | shr =>
        simp only [BinOp.value?] at hy
        split at hy
        · cases hy
        · cases hy
          exact fits_shiftRight ha _
      | lt | le | gt | ge | eq | ne | and | or =>
        cases hy
        exact d.fits_truthValue _
      | _ => simp [BinOp.isWrapped] at *

theorem fits_computeUnary (d : Domain) (op : UnOp) (a : Int) : d.Fits (d.computeUnary op a) := by
  cases op with
  | not => exact d.fits_truthValue _
  | neg => exact d.fits_wrap _
  | bitNot => exact d.fits_wrap _

theorem fits_decided? {d : Domain} {op : BinOp} {a x : Int} (h : op.decided? a = some x) :
    d.Fits x := by
  have hx : x = 0 ∨ x = 1 := by
    unfold BinOp.decided? at h
    grind
  rcases hx with rfl | rfl
  · exact d.fits_zero
  · exact d.fits_one

end Domain

namespace Folder

variable {f : Folder}

private theorem wrap_bits (d : Domain) (b : BitVec 32) (x : Int) (h : BitVec.ofInt 32 x = b) :
    d.wrap b.toInt = d.wrap x := by
  rw [← h, d.wrap_toInt_ofInt]

private theorem wrap_land (d : Domain) (a b : Int32) :
    d.wrap (a &&& b).toInt = d.wrap (a.toInt.land b.toInt) :=
  wrap_bits d (a &&& b).toBitVec _ (by simp [Bits.ofInt_land])

private theorem wrap_lor (d : Domain) (a b : Int32) :
    d.wrap (a ||| b).toInt = d.wrap (a.toInt.lor b.toInt) :=
  wrap_bits d (a ||| b).toBitVec _ (by simp [Bits.ofInt_lor])

private theorem wrap_xor (d : Domain) (a b : Int32) :
    d.wrap (a ^^^ b).toInt = d.wrap (a.toInt.xor b.toInt) :=
  wrap_bits d (a ^^^ b).toBitVec _ (by simp [Bits.ofInt_xor])

theorem wrap_lnot (d : Domain) (a : Int32) : d.wrap (~~~a).toInt = d.wrap a.toInt.lnot :=
  wrap_bits d (~~~a).toBitVec _ (by simp [Bits.ofInt_lnot])

theorem toInt_zero_iff (a : Int32) : a.toInt = 0 ↔ a = 0 := by
  rw [← Int32.toInt_inj]
  rfl

/-- What the folder makes of two literals is their value in the domain; what is shifted right has to
lie in it. -/
theorem evaluate?_eq_some {op : BinOp} {a b v : Int32} (ha : op = .shr → f.domain.Fits a.toInt)
    (h : f.evaluate? op a b = some v) : f.domain.compute? op a.toInt b.toInt = some v.toInt := by
  cases op with
  | add | sub | mul =>
    cases h
    simp [Domain.compute?, BinOp.value?, BinOp.isWrapped]
  | div | mod =>
    simp only [evaluate?, Option.ite_none_right_eq_some, Option.some.injEq] at h
    obtain ⟨hd,rfl⟩ := h
    have hb : b.toInt ≠ 0 := by
      rw [Ne, toInt_zero_iff]
      simp [divides] at hd
      exact hd.1
    simp [Domain.compute?, BinOp.value?, BinOp.isWrapped, hb]
  | shl =>
    simp only [evaluate?, Option.ite_none_right_eq_some, Option.some.injEq] at h
    obtain ⟨hb,rfl⟩ := h
    simp [Domain.compute?, BinOp.value?, BinOp.isWrapped, hb, not_lt.mpr hb.1]
  | shr =>
    simp only [evaluate?, Option.ite_none_right_eq_some, Option.some.injEq] at h
    obtain ⟨hb,rfl⟩ := h
    rw [Domain.wrap_of_fits (ha rfl)]
    have hf := Domain.fits_shiftRight (ha rfl) b.toInt.toNat
    have hw : f.wrap (a.toInt.shiftRight b.toInt.toNat) = .ofInt (a.toInt.shiftRight b.toInt.toNat) := by
      rw [wrap, Domain.wrap_of_fits hf]
    rw [← hw, toInt_wrap, Domain.wrap_of_fits hf]
    simp [Domain.compute?, BinOp.value?, BinOp.isWrapped, hb, not_lt.mpr hb.1]
  | lt | le | gt | ge | eq | ne | and | or =>
    cases h
    simp [Domain.compute?, BinOp.value?, BinOp.isWrapped, truthValue, Int32.lt_iff_toInt_lt,
      Int32.le_iff_toInt_le, ← Int32.toInt_inj]
  | bitAnd =>
    cases h
    simp [Domain.compute?, BinOp.value?, BinOp.isWrapped, wrap_land]
  | bitXor =>
    cases h
    simp [Domain.compute?, BinOp.value?, BinOp.isWrapped, wrap_xor]
  | bitOr =>
    cases h
    simp [Domain.compute?, BinOp.value?, BinOp.isWrapped, wrap_lor]

theorem toInt_power {k : Nat} (hk : 1 ≤ k ∧ k ≤ 15) :
    (Int32.ofNat (Nat.pow 2 k)).toInt = 2 ^ k ∧ (Int32.ofNat k).toInt = k := by
  obtain ⟨h₁,h₂⟩ := hk
  interval_cases k <;> exact ⟨rfl,rfl⟩

/-- A power of two in the domain is one of a shift below the width. -/
private theorem lt_bits {d : Domain} {k : Nat} (hk : 1 ≤ k ∧ k ≤ 15) (h : d.Fits (2 ^ k)) :
    k < d.bits := by
  obtain ⟨h₁,h₂⟩ := hk
  cases d <;> interval_cases k <;> revert h <;> decide

theorem compute?_mul_power {d : Domain} {k : Nat} (hk : 1 ≤ k ∧ k ≤ 15)
    (hv : d.Fits (Int32.ofNat (Nat.pow 2 k)).toInt) (a x : Int)
    (h : d.compute? .mul a (Int32.ofNat (Nat.pow 2 k)).toInt = some x) :
    d.compute? .shl a (Int32.ofNat k).toInt = some x := by
  obtain ⟨hp,he⟩ := toInt_power hk
  rw [hp] at hv h
  have hb := lt_bits hk hv
  simpa [Domain.compute?, BinOp.value?, BinOp.isWrapped, he, hb] using h

theorem compute?_div_power {d : Domain} {k : Nat} (hk : 1 ≤ k ∧ k ≤ 15)
    (hv : d.Fits (Int32.ofNat (Nat.pow 2 k)).toInt) (a x : Int) (hf : d.Fits a) (ha : 0 ≤ a)
    (h : d.compute? .div a (Int32.ofNat (Nat.pow 2 k)).toInt = some x) :
    d.compute? .shr a (Int32.ofNat k).toInt = some x := by
  obtain ⟨hp,he⟩ := toInt_power hk
  rw [hp] at hv h
  have hb := lt_bits hk hv
  have hq : a.tdiv (2 ^ k) = a.shiftRight k := by
    rw [Int.tdiv_eq_ediv_of_nonneg ha]
    exact (Int.shiftRight_eq_div_pow a k).symm
  have hw : d.wrap (a.shiftRight k) = a.shiftRight k := Domain.wrap_of_fits (Domain.fits_shiftRight hf k)
  simpa [Domain.compute?, BinOp.value?, BinOp.isWrapped, he, hb, hq, hw] using h

private theorem lnot_eq (a : Int) : a.lnot = -a - 1 := by
  cases a with
  | ofNat n =>
    change Int.negSucc n = _
    rw [Int.negSucc_eq, Int.ofNat_eq_natCast]
    omega
  | negSucc n => simp [Int.lnot, Int.negSucc_eq]

/-- Minus and complement undo themselves in a domain. -/
theorem computeUnary_twice {d : Domain} {op : UnOp} (hop : op ≠ .not) {a : Int} (h : d.Fits a) :
    d.computeUnary op (d.computeUnary op a) = a := by
  have hm (x : Int) : d.wrap x ≡ x [ZMOD d.modulus] := d.wrap_emod x
  cases op with
  | not => exact (hop rfl).elim
  | neg =>
    have he : -d.wrap (-a) ≡ a [ZMOD d.modulus] := by simpa using (hm (-a)).neg
    exact (d.wrap_congr he).trans (Domain.wrap_of_fits h)
  | bitNot =>
    have he : (d.wrap a.lnot).lnot ≡ a [ZMOD d.modulus] := by
      simpa [lnot_eq] using (hm (-a - 1)).neg.sub_right 1
    exact (d.wrap_congr he).trans (Domain.wrap_of_fits h)

/-- Zero on the right changes nothing under a sum, a difference or a bitwise sum. -/
theorem compute?_zero_right {d : Domain} {op : BinOp}
    (hop : op = .add ∨ op = .bitOr ∨ op = .bitXor ∨ op = .sub) {a x : Int} (ha : d.Fits a)
    (h : d.compute? op a 0 = some x) : x = a := by
  rcases hop with rfl | rfl | rfl | rfl <;>
    simpa [Domain.compute?, BinOp.value?, BinOp.isWrapped, Domain.wrap_of_fits ha, eq_comm] using h

theorem compute?_zero_left {d : Domain} {op : BinOp} (hop : op = .add ∨ op = .bitOr ∨ op = .bitXor)
    {b x : Int} (hb : d.Fits b) (h : d.compute? op 0 b = some x) : x = b := by
  rcases hop with rfl | rfl | rfl <;>
    simpa [Domain.compute?, BinOp.value?, BinOp.isWrapped, Domain.wrap_of_fits hb, eq_comm] using h

theorem compute?_one_right {d : Domain} {op : BinOp} (hop : op = .mul ∨ op = .div) {a x : Int}
    (ha : d.Fits a) (h : d.compute? op a 1 = some x) : x = a := by
  rcases hop with rfl | rfl <;>
    simpa [Domain.compute?, BinOp.value?, BinOp.isWrapped, Domain.wrap_of_fits ha, eq_comm] using h

theorem compute?_absorb {d : Domain} {op : BinOp} (hop : op = .mul ∨ op = .bitAnd) {a b x : Int}
    (h0 : a = 0 ∨ b = 0) (h : d.compute? op a b = some x) : x = 0 := by
  rcases hop with rfl | rfl <;> rcases h0 with rfl | rfl <;>
    simpa [Domain.compute?, BinOp.value?, BinOp.isWrapped, Domain.wrap_of_fits d.fits_zero, eq_comm] using h

theorem compute?_cancel {d : Domain} {op : BinOp} (hop : op = .sub ∨ op = .bitXor) {a x : Int}
    (h : d.compute? op a a = some x) : x = 0 := by
  rcases hop with rfl | rfl <;>
    simpa [Domain.compute?, BinOp.value?, BinOp.isWrapped, Domain.wrap_of_fits d.fits_zero, eq_comm] using h

theorem compute?_keep {d : Domain} {op : BinOp} (hop : op = .bitAnd ∨ op = .bitOr) {a x : Int}
    (ha : d.Fits a) (h : d.compute? op a a = some x) : x = a := by
  rcases hop with rfl | rfl <;>
    simpa [Domain.compute?, BinOp.value?, BinOp.isWrapped, Domain.wrap_of_fits ha, eq_comm] using h

/-- What the left operand settles agrees with the operation on both. -/
theorem compute?_of_decided? {d : Domain} {op : BinOp} {a x : Int} (b : Int)
    (h : op.decided? a = some x) : d.compute? op a b = some x := by
  cases op with
  | and =>
    obtain ⟨rfl,rfl⟩ : a = 0 ∧ 0 = x := by simpa [BinOp.decided?] using h
    simp [Domain.compute?, BinOp.value?, BinOp.isWrapped, truthValue]
  | or =>
    obtain ⟨ha,rfl⟩ : a ≠ 0 ∧ 1 = x := by simpa [BinOp.decided?] using h
    simp [Domain.compute?, BinOp.value?, BinOp.isWrapped, truthValue, ha]
  | _ => cases h

end Folder

end Cartridge
