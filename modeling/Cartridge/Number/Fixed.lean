import Cartridge.Json.Decode

/-! Signed fixed-point numbers with eight bits before and eight after the point. -/
namespace Cartridge

/-- The number `raw / 256`. -/
structure Fixed where
  raw : Int16
  deriving DecidableEq, Repr

namespace Fixed

def zero : Fixed := ⟨0⟩

def one : Fixed := ⟨256⟩

def ofInt (i : Int) : Fixed := ⟨.ofInt (max (-128) (min i 127) * 256)⟩

def roundHalfUp (num den : Nat) : Nat := (2 * num + den) / (2 * den)

/-- The nearest multiple of 1/256 to a number that is first rounded to single precision. A half
goes away from zero, and a number out of range to the end of the range. -/
def ofReal (x : Json.Real) : Fixed :=
  let (num, den) := x.magnitude.toRatio
  let units : Int := match Binary.single.round? num den with
    | some y =>
      let (num, den) := y.toRatio
      roundHalfUp (num * 256) den
    | none => 32768
  ⟨.ofInt (max (-32768) (min (if x.negative then -units else units) 32767))⟩

def greatest : Fixed := ⟨32767⟩

def least : Fixed := ⟨-32768⟩

/-- A raw 8.8 value times this number, rounded down and cut to sixteen bits. -/
def scale (a : Fixed) (v : Int16) : Int16 := .ofInt (v.toInt * a.raw.toInt / 256)

def mul (a b : Fixed) : Fixed := ⟨b.scale a.raw⟩

def positional (d : Decimal) : String :=
  if 0 ≤ d.exponent then toString (d.digits * Nat.pow 10 d.exponent.toNat)
  else
    let places := (-d.exponent).toNat
    let digits := Nat.toDigits 10 d.digits
    let padded := List.replicate (places + 1 - digits.length) '0' ++ digits
    let whole := padded.length - places
    String.ofList (padded.take whole ++ '.' :: padded.drop whole)

/-- The shortest decimal that reads back in single precision, without exponent. Of two equally
near ones the larger is taken. -/
def text (a : Fixed) : String :=
  let x := (Binary.single.round? a.raw.toInt.natAbs 256).getD .zero
  (if a.raw < 0 then "-" else "") ++ positional (Binary.single.shortest .up x)

def toJson (a : Fixed) : Json := .ofInt a.raw.toInt

def ofJson? (j : Json) : Option Fixed := j.i16?.map Fixed.mk

end Fixed

end Cartridge
