import Cartridge.Expr.Basic
import Cartridge.Json.Decode

/-! Expressions as JSON documents. -/
namespace Cartridge

namespace BinOp

def name : BinOp → String
  | .mul => "Mul"
  | .div => "Div"
  | .mod => "Mod"
  | .add => "Add"
  | .sub => "Sub"
  | .shl => "Shl"
  | .shr => "Shr"
  | .lt => "Lt"
  | .le => "Le"
  | .gt => "Gt"
  | .ge => "Ge"
  | .eq => "Eq"
  | .ne => "Ne"
  | .bitAnd => "BitAnd"
  | .bitXor => "BitXor"
  | .bitOr => "BitOr"
  | .and => "And"
  | .or => "Or"

def ofJson? : Nat → Json → Option BinOp := Json.oneOf? all name

end BinOp

namespace UnOp

def name : UnOp → String
  | .neg => "Neg"
  | .not => "Not"
  | .bitNot => "BitNot"

def ofJson? : Nat → Json → Option UnOp := Json.oneOf? all name

end UnOp

namespace Expr

mutual

def toJson : Expr → Json
  | .int v => .single "Literal" (.single "Int" (.ofInt v.toInt))
  | .str s => .single "Literal" (.single "Str" (.ofString s))
  | .var name => .single "Var" (.ofString name)
  | .binary op l r => .single "Binary"
      (.ofMembers [("left", toJson l), ("op", .ofString op.name), ("right", toJson r)])
  | .unary op e => .single "Unary" (.ofMembers [("op", .ofString op.name), ("operand", toJson e)])
  | .index array e => .single "Index" (.ofMembers [("array", .ofString array), ("index", toJson e)])
  | .call name args => .single "Call"
      (.ofMembers [("name", .ofString name), ("args", .arr (toJsonAll args))])
  | .ternary c y n => .single "Ternary"
      (.ofMembers [("cond", toJson c), ("then_expr", toJson y), ("else_expr", toJson n)])

def toJsonAll : List Expr → List Json
  | [] => []
  | e :: es => toJson e :: toJsonAll es

end

def literal? (depth : Nat) (j : Json) : Option Expr :=
  Json.within depth fun _ => do
    let (kind, body) ← j.variant?
    match kind with
    | "Int" => body.i32?.map .int
    | "Str" => body.text?.map .str
    | _ => none

/-- Reads an expression that opens at most `depth` brackets inside one another. -/
def ofJson? (depth : Nat) (j : Json) : Option Expr :=
  match depth, j.variant? with
  | depth + 1, some ("Literal", body) => literal? depth body
  | _ + 1, some ("Var", body) => body.text?.map .var
  | depth + 2, some ("Binary", body) => do
    let f ← body.fields? ["left", "op", "right"]
    return .binary (← f.need "op" (BinOp.ofJson? depth))
      (← f.need "left" (ofJson? depth)) (← f.need "right" (ofJson? depth))
  | depth + 2, some ("Unary", body) => do
    let f ← body.fields? ["op", "operand"]
    return .unary (← f.need "op" (UnOp.ofJson? depth)) (← f.need "operand" (ofJson? depth))
  | depth + 2, some ("Index", body) => do
    let f ← body.fields? ["array", "index"]
    return .index (← f.need "array" Json.text?) (← f.need "index" (ofJson? depth))
  | depth + 3, some ("Call", body) => do
    let f ← body.fields? ["name", "args"]
    return .call (← f.need "name" Json.text?) (← f.need "args" (Json.items? (ofJson? depth)))
  | depth + 2, some ("Ternary", body) => do
    let f ← body.fields? ["cond", "then_expr", "else_expr"]
    return .ternary (← f.need "cond" (ofJson? depth))
      (← f.need "then_expr" (ofJson? depth)) (← f.need "else_expr" (ofJson? depth))
  | _, _ => none

end Expr

end Cartridge
