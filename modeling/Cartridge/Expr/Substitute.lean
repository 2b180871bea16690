import Cartridge.Expr.Basic

/-! Replacing variables by expressions. -/
namespace Cartridge

abbrev Substitution := String → Option Expr

/-- Binds each name to the expression at its place; of equal names the last counts. -/
def Substitution.ofLists (names : List String) (values : List Expr) : Substitution :=
  fun name => (names.zip values).reverse.lookup name

namespace Expr

mutual

/-- Replaces every bound variable once. Names of arrays and functions stay. -/
def substitute (s : Substitution) : Expr → Expr
  | .int v => .int v
  | .str t => .str t
  | .var name => (s name).getD (.var name)
  | .binary op l r => .binary op (substitute s l) (substitute s r)
  | .unary op e => .unary op (substitute s e)
  | .index array e => .index array (substitute s e)
  | .call name args => .call name (substituteAll s args)
  | .ternary c y n => .ternary (substitute s c) (substitute s y) (substitute s n)

def substituteAll (s : Substitution) : List Expr → List Expr
  | [] => []
  | e :: es => substitute s e :: substituteAll s es

end

end Expr

end Cartridge
