import Cartridge.Code.Emission
import Cartridge.Code.Name
import Cartridge.Expr.Fold
import Cartridge.Expr.Text
import Cartridge.Game.Instance

/-!
Expressions on their way to C text: they are folded in the domain of their destination, and
subscripts of declared arrays are checked.
-/
namespace Cartridge.Lower

open Code (LowerError)

structure Options where
  /-- The domain where no declaration gives one. -/
  domain : Domain := .u8
  /-- Whether subscripts are checked at run time. -/
  boundsChecks : Bool := true
  sourceMap : Bool := true
  deriving DecidableEq, Repr

/-- What code is emitted for, and how. -/
structure Scope where
  game : Game
  options : Options

namespace Scope

def folder (s : Scope) (d : Domain) : Folder := ⟨d, s.game.declaredDomain?⟩

def domainOf (s : Scope) (name : String) : Domain :=
  (s.game.declaredDomain? name).getD s.options.domain

end Scope

/-- A literal subscript of a declared array must lie inside it; any other is wrapped in a check. -/
def checkSubscript (s : Scope) (array : String) (e : Expr) : Except LowerError Expr :=
  match s.game.arrayLength? array with
  | none => .ok e
  | some length =>
    match e.intValue? with
    | some i =>
      if i.toInt < 0 ∨ (length.toNat : Int) ≤ i.toInt then .error (.indexOutOfBounds array i length)
      else .ok e
    | none =>
      if s.options.boundsChecks then
        .ok (.call "BOUNDS_CHECK" [e, .var (Code.Name.length array)])
      else .ok e

mutual

def guardIndices (s : Scope) : Expr → Except LowerError Expr
  | .int v => .ok (.int v)
  | .str t => .ok (.str t)
  | .var name => .ok (.var name)
  | .index array e => do
    let e ← guardIndices s e
    return .index array (← checkSubscript s array e)
  | .binary op l r => do
    let l ← guardIndices s l
    return .binary op l (← guardIndices s r)
  | .unary op e => do return .unary op (← guardIndices s e)
  | .call name args => do return .call name (← guardAll s args)
  | .ternary c y n => do
    let c ← guardIndices s c
    let y ← guardIndices s y
    return .ternary c y (← guardIndices s n)

def guardAll (s : Scope) : List Expr → Except LowerError (List Expr)
  | [] => .ok []
  | e :: es => do
    let e ← guardIndices s e
    return e :: (← guardAll s es)

end

def exprText (s : Scope) (d : Domain) (e : Expr) : Except LowerError String :=
  (guardIndices s ((s.folder d).simplify e)).map Expr.text

def condText (s : Scope) (e : Expr) : Except LowerError String := exprText s s.options.domain e

def subscriptText (s : Scope) (array : String) (e : Expr) : Except LowerError String := do
  let e ← guardIndices s ((s.folder s.options.domain).simplify e)
  return (← checkSubscript s array e).text

end Cartridge.Lower
