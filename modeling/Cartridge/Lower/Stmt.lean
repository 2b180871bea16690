import Cartridge.Lower.Expr

/-! Statements as C code. -/
namespace Cartridge.Lower

open Code Code.Emission

/-- The narrowest C type for a counter that runs from one number to another. -/
def counterType (first last : Int32) : String :=
  if 0 ≤ first ∧ last ≤ 0xFF then "uint8_t"
  else if 0 ≤ first ∧ last ≤ 0xFFFF then "uint16_t"
  else if -128 ≤ first ∧ last ≤ 127 then "int8_t"
  else if -32768 ≤ first ∧ last ≤ 32767 then "int16_t"
  else "int32_t"

def rangeHeader (counter : String) (first last : Int32) : String :=
  s!"for ({counterType first last} {counter} = {first.toInt}; "
    ++ s!"{counter} < {last.toInt}; {counter}++)"

def elseText : String := "\x7d else \x7b"

def elseIfText (test : String) : String := "\x7d else if (" ++ test ++ ") \x7b"

mutual

def stmt (s : Scope) : Stmt → Emission Unit
  | .assign target op value loc => do
    origin loc
    let value ← ofExcept (exprText s (s.domainOf target) value)
    line s!"{target} {op.token} {value};"
  | .assignIndex array subscript op value loc => do
    origin loc
    let subscript ← ofExcept (subscriptText s array subscript)
    let value ← ofExcept (exprText s (s.domainOf array) value)
    line s!"{array}[{subscript}] {op.token} {value};"
  | .cond test yes no loc => do
    origin loc
    let test ← ofExcept (condText s test)
    Emission.block s!"if ({test})"
    block s yes
    branch s no
    close
  | .loop test body loc => do
    origin loc
    let test ← ofExcept (condText s test)
    Emission.block s!"while ({test})"
    block s body
    close
  | .range counter first last body loc => do
    origin loc
    Emission.block (rangeHeader counter first last)
    block s body
    close
  | .call name args loc => do
    origin loc
    let call ← ofExcept (exprText s s.options.domain (.call name args))
    line s!"{call};"
  | .changeScene scene loc => do
    origin loc
    match s.game.sceneIndex? scene with
    | some _ => line s!"change_scene({Name.scene scene});"
    | none => problem .unknownScene s!"unknown scene '{scene}'" loc
  | .raw text loc => do
    origin loc
    lines text

/-- What follows the first branch of a conditional. A single conditional goes on with the chain. -/
def branch (s : Scope) : Option (List Stmt) → Emission Unit
  | none => return ()
  | some [.cond test yes no loc] => do
    let test ← ofExcept (condText s test)
    origin loc
    reopen (elseIfText test)
    block s yes
    branch s no
  | some stmts => do
    reopen elseText
    block s stmts

def block (s : Scope) : List Stmt → Emission Unit
  | [] => return ()
  | first :: rest => do
    stmt s first
    block s rest

end

end Cartridge.Lower
