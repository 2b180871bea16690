import Cartridge.Code.Construct
import Cartridge.Lower.Stmt

/-! The global variables of the generated program. -/
namespace Cartridge.Game.Globals

open Code Code.Emission Lower

def stored (t : VarType) (value : Int32) : Int :=
  match t with
  | .bool => if value = 0 then 0 else 1
  | _ => t.domain.wrap value.toInt

def variableText (v : Variable) : String :=
  s!"{v.type.cType} {v.name} = {stored v.type v.init};"

/-- The elements of an array; those without initializer are zero. -/
def elements (a : ArrayDecl) : List Int :=
  (a.init ++ List.replicate (a.length.toNat - a.init.length) 0).map (stored a.type)

def array (a : ArrayDecl) : Emission Unit := do
  ofConfig a.validate
  line (constant (Name.length a.name) a.length.toNat)
  let values := initializer ((elements a).map toString)
  line s!"{a.type.cType} {a.name}[{Name.length a.name}] = {values};"

def emit (s : Scope) : Emission Unit :=
  if s.game.scalars.isEmpty && s.game.arrays.isEmpty then return () else do
    banner
    verbatim (s.game.scalars.map variableText)
    each array s.game.arrays
    blank

end Cartridge.Game.Globals
