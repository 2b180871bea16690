import Cartridge.Error
import Cartridge.Expr.Substitute
import Cartridge.Stmt.Json

/-! Named statement lists with parameters, copied out at each use. -/
namespace Cartridge

namespace Stmt

mutual

/-- Replaces bound variables in every expression. Targets and counters are names and stay. -/
def substitute (s : Substitution) : Stmt → Stmt
  | .assign target op value loc => .assign target op (value.substitute s) loc
  | .cond test yes no loc =>
    .cond (test.substitute s) (substituteAll s yes) (substituteBranch s no) loc
  | .loop test body loc => .loop (test.substitute s) (substituteAll s body) loc
  | .range counter first last body loc => .range counter first last (substituteAll s body) loc
  | .call name args loc => .call name (Expr.substituteAll s args) loc
  | .changeScene scene loc => .changeScene scene loc
  | .raw text loc => .raw text loc
  | .assignIndex array subscript op value loc =>
    .assignIndex array (subscript.substitute s) op (value.substitute s) loc

def substituteAll (s : Substitution) : List Stmt → List Stmt
  | [] => []
  | a :: as => substitute s a :: substituteAll s as

def substituteBranch (s : Substitution) : Option (List Stmt) → Option (List Stmt)
  | none => none
  | some as => some (substituteAll s as)

end

end Stmt

structure LogicBlock where
  name : String
  params : List String
  body : List Stmt
  deriving DecidableEq

namespace LogicBlock

def expand (b : LogicBlock) (args : List Expr) : Except Error (List Stmt) :=
  if args.length = b.params.length then
    .ok (Stmt.substituteAll (.ofLists b.params args) b.body)
  else .error (.arity b.name b.params.length args.length)

def ofJson? (depth : Nat) (j : Json) : Option LogicBlock :=
  Json.within depth fun depth => do
    let f ← j.fields? ["name", "params", "body"]
    return ⟨← f.need "name" Json.text?, ← f.need "params" (Json.list? depth fun _ => Json.text?),
      ← f.need "body" (Stmt.listOfJson? depth)⟩

end LogicBlock

end Cartridge
