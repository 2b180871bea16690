import Cartridge.Number.Binary

/-! The decimal with the fewest digits that reads back as a given binary magnitude. -/
namespace Cartridge

/-- The magnitude `digits * 10 ^ exponent`. -/
structure Decimal where
  digits : Nat
  exponent : Int
  deriving DecidableEq, Repr

/-- Which of two equally near decimals is chosen. -/
inductive Tie where
  | toEven
  | up
  deriving DecidableEq, Repr

/-- The least `k` with `num / den < 10 ^ k`, for a positive quotient. -/
def decimalPoint (num den : Nat) : Int :=
  if den ≤ num then ((Nat.toDigits 10 (num / den)).length : Int)
  else 1 - ((Nat.toDigits 10 ((den + num - 1) / num - 1)).length : Int)

def Decimal.trim (digits : Nat) (exponent : Int) : Decimal :=
  if h : digits ≠ 0 ∧ digits % 10 = 0 then Decimal.trim (digits / 10) (exponent + 1)
  else ⟨digits, exponent⟩
termination_by digits
decreasing_by omega

namespace Binary

/-- The reals that round to a number, in quarters of its last place. The ends belong to the
interval when the mantissa is even. -/
structure Interval where
  low : Nat
  value : Nat
  high : Nat
  closed : Bool

def Format.interval (f : Format) (x : Binary) : Interval :=
  -- below a power of two numbers lie twice as close
  let isPower := x.mantissa = Nat.pow 2 (f.precision - 1) ∧ f.least < x.exponent
  { low := 4 * x.mantissa - (if isPower then 1 else 2)
    value := 4 * x.mantissa
    high := 4 * x.mantissa + 2
    closed := x.mantissa % 2 = 0 }

/-- The decimals `c * 10 ^ t` next to a number that read back as it, nearest first. -/
def Format.neighbours (f : Format) (tie : Tie) (x : Binary) (t : Int) : List Nat :=
  let i := f.interval x
  let e := x.exponent - 2
  -- both sides are multiplied out so that every factor is a natural number
  let step := Nat.pow 10 t.toNat * Nat.pow 2 (-e).toNat
  let unit := Nat.pow 10 (-t).toNat * Nat.pow 2 e.toNat
  let inside (c : Nat) : Bool :=
    if i.closed then i.low * unit ≤ c * step ∧ c * step ≤ i.high * unit
    else i.low * unit < c * step ∧ c * step < i.high * unit
  let below := i.value * unit / step
  let gap := i.value * unit % step
  let above := below + 1
  let belowFirst := 2 * gap < step ∨ (2 * gap = step ∧ tie = .toEven ∧ below % 2 = 0)
  (if belowFirst then [below, above] else [above, below]).filter inside

def Format.shortestFrom (f : Format) (tie : Tie) (x : Binary) (point : Int) (used : Nat) :
    Nat → Decimal
  | 0 => ⟨0, 0⟩
  | room + 1 =>
    match f.neighbours tie x (point - used) with
    | c :: _ => Decimal.trim c (point - used)
    | [] => f.shortestFrom tie x point (used + 1) room

/-- Of the decimals that read back as a number, those with the fewest digits, and of these the
nearest. Seventeen digits always suffice. -/
def Format.shortest (f : Format) (tie : Tie) (x : Binary) : Decimal :=
  if x.mantissa = 0 then ⟨0, 0⟩ else
    let (num, den) := x.toRatio
    f.shortestFrom tie x (decimalPoint num den) 1 17

end Binary

end Cartridge
