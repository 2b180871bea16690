import Mathlib.Tactic.Common
import Cartridge.Expr.Fold
import Cartridge.Proofs.Number.Bits

/-! The values of a domain, and wrapping as the retraction onto them. -/
namespace Cartridge

namespace Domain

def least : Domain → Int
  | .u8 | .u16 => 0
  | .i8 => -128
  | .i16 => -32768

def greatest : Domain → Int
  | .u8 => 255
  | .i8 => 127
  | .u16 => 65535
  | .i16 => 32767

def Fits (d : Domain) (x : Int) : Prop := d.least ≤ x ∧ x ≤ d.greatest

instance (d : Domain) (x : Int) : Decidable (d.Fits x) :=
  inferInstanceAs (Decidable (d.least ≤ x ∧ x ≤ d.greatest))

theorem fits_wrap (d : Domain) (x : Int) : d.Fits (d.wrap x) := by
  cases d <;> simp only [Fits, least, greatest, wrap, isSigned, modulus, Int.bmod] <;> grind

theorem wrap_of_fits {d : Domain} {x : Int} (h : d.Fits x) : d.wrap x = x := by
  cases d <;> simp only [Fits, least, greatest, wrap, isSigned, modulus, Int.bmod] at h ⊢ <;> grind

/-- Wrapping sees an integer only modulo the number of values. -/
theorem wrap_congr (d : Domain) {x y : Int} (h : x % d.modulus = y % d.modulus) :
    d.wrap x = d.wrap y := by
  simp only [wrap, Int.bmod, h]

theorem wrap_emod (d : Domain) (x : Int) : d.wrap x % d.modulus = x % d.modulus := by
  unfold wrap
  split
  · exact Int.bmod_emod
  · exact Int.emod_emod_of_dvd x (dvd_refl _)

/-- Cutting to 32 bits first does not show. -/
theorem wrap_toInt_ofInt (d : Domain) (x : Int) : d.wrap (BitVec.ofInt 32 x).toInt = d.wrap x := by
  apply wrap_congr
  rw [BitVec.toInt_ofInt]
  cases d <;> simp only [modulus, Int.bmod] <;> grind

theorem fits_zero (d : Domain) : d.Fits 0 := by cases d <;> decide

theorem fits_one (d : Domain) : d.Fits 1 := by cases d <;> decide

end Domain

namespace Folder

/-- The literal a wrapped integer is written as has that value. -/
@[simp] theorem toInt_wrap (f : Folder) (x : Int) : (f.wrap x).toInt = f.domain.wrap x := by
  have h := f.domain.fits_wrap x
  rw [wrap, Int32.toInt_ofInt]
  generalize f.domain.wrap x = y at h ⊢
  cases hd : f.domain <;> simp only [hd, Domain.Fits, Domain.least, Domain.greatest] at h <;>
    simp only [Int32.size, Int.bmod] <;> grind

@[simp] theorem toInt_truth (b : Bool) : (truth b).toInt = if b then 1 else 0 := by
  cases b <;> rfl

end Folder

end Cartridge
