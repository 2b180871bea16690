/-! Magnitudes of the form m * 2^e, and rounding a quotient to the nearest one a format holds. -/
namespace Cartridge

/-- The magnitude `mantissa * 2 ^ exponent`. -/
structure Binary where
  mantissa : Nat
  exponent : Int
  deriving DecidableEq, Repr

namespace Binary

def zero : Binary := ⟨0, 0⟩

def toRatio (x : Binary) : Nat × Nat :=
  (x.mantissa * Nat.pow 2 x.exponent.toNat, Nat.pow 2 (-x.exponent).toNat)

/-- Mantissas have at most `precision` bits and exponents lie between `least` and `greatest`. -/
structure Format where
  precision : Nat
  least : Int
  greatest : Int
  deriving DecidableEq, Repr

def double : Format := ⟨53, -1074, 971⟩

def single : Format := ⟨24, -149, 104⟩

/-- The natural number nearest to a quotient; a half goes to the even neighbour. -/
def roundDiv (num den : Nat) : Nat :=
  let q := num / den
  let r := num % den
  if 2 * r < den then q else if den < 2 * r then q + 1 else q + q % 2

def Format.exponentOf (f : Format) (num den : Nat) : Int :=
  let guess : Int := (num.log2 : Int) - den.log2 - f.precision
  if den * Nat.pow 2 guess.toNat * Nat.pow 2 f.precision ≤ num * Nat.pow 2 (-guess).toNat then
    guess + 1
  else guess

/-- The nearest number of the format to a quotient, a half going to the even mantissa. There is
none past the largest number. -/
def Format.round? (f : Format) (num den : Nat) : Option Binary :=
  if num = 0 then some zero else
    let e := max (f.exponentOf num den) f.least
    let m := roundDiv (num * Nat.pow 2 (-e).toNat) (den * Nat.pow 2 e.toNat)
    let x : Binary :=
      if m = Nat.pow 2 f.precision then ⟨Nat.pow 2 (f.precision - 1), e + 1⟩ else ⟨m, e⟩
    if f.greatest < x.exponent then none else some x

end Binary

end Cartridge
