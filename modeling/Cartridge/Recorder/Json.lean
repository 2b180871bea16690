import Cartridge.Recorder.Script

/-! Authoring scripts as JSON documents. -/
namespace Cartridge.Operation

/-- Reads an operation that opens at most `depth` brackets inside one another. -/
def ofJson? (depth : Nat) (j : Json) : Option Operation :=
  match depth with
  | 0 => none
  | depth + 1 => do
    let f ← j.members?
    let expr (key : String) : Option Expr := f.need key (Expr.ofJson? depth)
    let stmt : Option Stmt := f.need "stmt" (Stmt.ofJson? depth)
    let args : Option (List Expr) := f.need "args" (Json.list? depth Expr.ofJson?)
    let text (key : String) : Option String := f.need key Json.text?
    let body : Option (List Operation) := match depth with
      | 0 => none
      | depth + 1 => f.need "body" (Json.items? (ofJson? depth))
    match ← text "do" with
    | "assign" => return .emit (.assign (← text "target") .set (← expr "value") none)
    | "compound" =>
      return .emit (.assign (← text "target") (← f.need "assign" (AssignOp.ofJson? depth))
        (← expr "value") none)
    | "assign_index" =>
      return .emit (.assignIndex (← text "array") (← expr "index") .set (← expr "value") none)
    | "when" => return .when (← expr "cond") (← body)
    | "otherwise" => return .otherwise (← body)
    | "otherwise_when" => return .otherwiseWhen (← expr "cond") (← body)
    | "while" => return .repeatWhile (← expr "cond") (← body)
    | "for" =>
      return .forRange (← text "counter") (← f.need "start" Json.i32?) (← f.need "end" Json.i32?)
        (← body)
    | "call" => return .emit (.call (← text "name") (← args) none)
    | "change_scene" => return .emit (.changeScene (← text "scene") none)
    | "raw" => return .emit (.raw (← text "text") none)
    | "emit" | "sink_emit" => return .emit (← stmt)
    | "replace_last" => return .replaceLast (← stmt)
    | "expand" => return .expand (← text "block") (← args)
    | "record" => return .record (← body)
    | "try" => return .attempt (← body)
    | "fail" => return .fail (← text "message")
    | "last" => return .askLast
    | "depth" => return .askDepth
    | _ => none

def listOfJson? (depth : Nat) : Json → Option (List Operation) := Json.list? depth ofJson?

end Cartridge.Operation
