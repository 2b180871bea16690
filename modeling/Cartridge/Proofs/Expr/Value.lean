import Mathlib.Data.Int.Bitwise
import Cartridge.Proofs.Expr.Every

/-!
Exact values: operators on unbounded integers, quotients cut toward zero, shifts without a width, and
the value of an expression where names, elements and calls have given values.
-/
namespace Cartridge

def truthValue (p : Prop) [Decidable p] : Int := if p then 1 else 0

namespace BinOp

/-- The value of an operation on integers; none for a division by zero or a negative shift. -/
def value? (op : BinOp) (a b : Int) : Option Int :=
  match op with
  | .mul => some (a * b)
  | .div => if b = 0 then none else some (a.tdiv b)
  | .mod => if b = 0 then none else some (a.tmod b)
  | .add => some (a + b)
  | .sub => some (a - b)
  | .shl => if b < 0 then none else some (a * 2 ^ b.toNat)
  | .shr => if b < 0 then none else some (a.shiftRight b.toNat)
  | .lt => some (truthValue (a < b))
  | .le => some (truthValue (a ≤ b))
  | .gt => some (truthValue (b < a))
  | .ge => some (truthValue (b ≤ a))
  | .eq => some (truthValue (a = b))
  | .ne => some (truthValue (a ≠ b))
  | .bitAnd => some (a.land b)
  | .bitXor => some (a.xor b)
  | .bitOr => some (a.lor b)
  | .and => some (truthValue (a ≠ 0 ∧ b ≠ 0))
  | .or => some (truthValue (a ≠ 0 ∨ b ≠ 0))

/-- The value that the left operand settles alone, so that the right one is not evaluated. -/
def decided? (op : BinOp) (a : Int) : Option Int :=
  match op with
  | .and => if a = 0 then some 0 else none
  | .or => if a = 0 then none else some 1
  | _ => none

def combine? (op : BinOp) (x y : Option Int) : Option Int :=
  x.bind fun a => (op.decided? a).or (y.bind (op.value? a))

end BinOp

def UnOp.value (op : UnOp) (a : Int) : Int :=
  match op with
  | .neg => -a
  | .not => truthValue (a = 0)
  | .bitNot => a.lnot

/-- Values for all that an expression reads. -/
structure Valuation where
  var : String → Int
  element : String → Int → Int
  call : String → List Int → Int
  text : String → Int
  deriving Inhabited

namespace Expr

mutual

def value? (ρ : Valuation) : Expr → Option Int
  | .int v => some v.toInt
  | .str s => some (ρ.text s)
  | .var name => some (ρ.var name)
  | .binary op l r => op.combine? (value? ρ l) (value? ρ r)
  | .unary op e => (value? ρ e).map op.value
  | .index array e => (value? ρ e).map (ρ.element array)
  | .call name args => (values? ρ args).map (ρ.call name)
  | .ternary c y n => (value? ρ c).bind fun b => if b = 0 then value? ρ n else value? ρ y

def values? (ρ : Valuation) : List Expr → Option (List Int)
  | [] => some []
  | e :: es => (value? ρ e).bind fun v => (values? ρ es).map (v :: ·)

end

end Expr

end Cartridge
