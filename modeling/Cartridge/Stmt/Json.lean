import Cartridge.Stmt.Basic
import Cartridge.Expr.Json

/-! Statements as JSON documents. -/
namespace Cartridge

namespace AssignOp

def name : AssignOp → String
  | .set => "Set"
  | .add => "Add"
  | .sub => "Sub"
  | .mul => "Mul"
  | .div => "Div"
  | .mod => "Mod"
  | .bitAnd => "BitAnd"
  | .bitOr => "BitOr"
  | .bitXor => "BitXor"
  | .shl => "Shl"
  | .shr => "Shr"

def toJson (op : AssignOp) : Json := .ofString op.name

def ofJson? : Nat → Json → Option AssignOp := Json.oneOf? all name

end AssignOp

namespace Stmt

def tagged (kind : String) (body : Json) (loc : Option Location) : Json :=
  .ofMembers (("kind", .single kind body) :: Json.member? "location" (loc.map Location.toJson))

mutual

def toJson : Stmt → Json
  | .assign target op value loc => tagged "Assign"
      (.ofMembers [("target", .ofString target), ("op", op.toJson), ("value", value.toJson)]) loc
  | .cond test yes no loc => tagged "If"
      (.ofMembers [("cond", test.toJson), ("then_branch", .arr (toJsonAll yes)),
        ("else_branch", branchToJson no)]) loc
  | .loop test body loc => tagged "While"
      (.ofMembers [("cond", test.toJson), ("body", .arr (toJsonAll body))]) loc
  | .range counter first last body loc => tagged "For"
      (.ofMembers [("counter", .ofString counter), ("start", .ofInt first.toInt),
        ("end", .ofInt last.toInt), ("body", .arr (toJsonAll body))]) loc
  | .call name args loc => tagged "Call"
      (.ofMembers [("name", .ofString name), ("args", .arr (Expr.toJsonAll args))]) loc
  | .changeScene scene loc => tagged "ChangeScene" (.ofString scene) loc
  | .raw text loc => tagged "Raw" (.ofString text) loc
  | .assignIndex array subscript op value loc => tagged "AssignIndex"
      (.ofMembers [("array", .ofString array), ("index", subscript.toJson), ("op", op.toJson),
        ("value", value.toJson)]) loc

def toJsonAll : List Stmt → List Json
  | [] => []
  | s :: rest => toJson s :: toJsonAll rest

def branchToJson : Option (List Stmt) → Json
  | none => .null
  | some stmts => .arr (toJsonAll stmts)

end

def listToJson (stmts : List Stmt) : Json := .arr (toJsonAll stmts)

def header? (depth : Nat) (j : Json) : Option (String × Json × Option Location) :=
  Json.within depth fun depth => do
    let f ← j.fields? ["kind", "location"]
    let (kind, body) ← f.need "kind" Json.variant?
    return (kind, body, ← f.get? "location" (Location.ofJson? depth))

/-- Reads a statement that opens at most `depth` brackets inside one another: one for itself, one
for its kind, and in most kinds one for its content and one for a list in it. -/
def ofJson? (depth : Nat) (j : Json) : Option Stmt :=
  match depth, header? depth j with
  | _ + 2, some ("ChangeScene", body, loc) => return .changeScene (← body.text?) loc
  | _ + 2, some ("Raw", body, loc) => return .raw (← body.text?) loc
  | depth + 3, some ("Assign", body, loc) => do
    let g ← body.fields? ["target", "op", "value"]
    return .assign (← g.need "target" Json.text?) (← g.need "op" (AssignOp.ofJson? depth))
      (← g.need "value" (Expr.ofJson? depth)) loc
  | depth + 3, some ("AssignIndex", body, loc) => do
    let g ← body.fields? ["array", "index", "op", "value"]
    return .assignIndex (← g.need "array" Json.text?) (← g.need "index" (Expr.ofJson? depth))
      (← g.need "op" (AssignOp.ofJson? depth)) (← g.need "value" (Expr.ofJson? depth)) loc
  | depth + 4, some ("Call", body, loc) => do
    let g ← body.fields? ["name", "args"]
    return .call (← g.need "name" Json.text?)
      (← g.need "args" (Json.items? (Expr.ofJson? depth))) loc
  | depth + 4, some ("If", body, loc) => do
    let g ← body.fields? ["cond", "then_branch", "else_branch"]
    return .cond (← g.need "cond" (Expr.ofJson? (depth + 1)))
      (← g.need "then_branch" (Json.items? (ofJson? depth)))
      (← g.named? "else_branch" (Json.items? (ofJson? depth))) loc
  | depth + 4, some ("While", body, loc) => do
    let g ← body.fields? ["cond", "body"]
    return .loop (← g.need "cond" (Expr.ofJson? (depth + 1)))
      (← g.need "body" (Json.items? (ofJson? depth))) loc
  | depth + 4, some ("For", body, loc) => do
    let g ← body.fields? ["counter", "start", "end", "body"]
    return .range (← g.need "counter" Json.text?) (← g.need "start" Json.i32?)
      (← g.need "end" Json.i32?) (← g.need "body" (Json.items? (ofJson? depth))) loc
  | _, _ => none

def listOfJson? (depth : Nat) : Json → Option (List Stmt) := Json.list? depth ofJson?

end Stmt

end Cartridge
