import Cartridge.Expr.Basic
import Cartridge.CString

/-!
Expressions as C text. Parentheses stand only where the levels of the operators would otherwise
change the meaning.
-/
namespace Cartridge

/-- The words of a C expression. -/
inductive Lexeme where
  | name (s : String)
  | number (n : Nat)
  | str (s : String)
  | binary (op : BinOp)
  | unary (op : UnOp)
  | openParen
  | closeParen
  | openBracket
  | closeBracket
  | comma
  | question
  | colon
  deriving DecidableEq, Repr

def Lexeme.text : Lexeme → String
  | .name s => s
  | .number n => toString n
  | .str s => "\"" ++ CString.escape s ++ "\""
  | .binary op => " " ++ op.token ++ " "
  | .unary op => op.token
  | .openParen => "("
  | .closeParen => ")"
  | .openBracket => "["
  | .closeBracket => "]"
  | .comma => ", "
  | .question => " ? "
  | .colon => " : "

/-- Whether `a parent (b child c)` may be written `a parent b child c`. -/
def BinOp.regroups (parent child : BinOp) : Bool :=
  match parent with
  | .add => child = .add || child = .sub
  | .mul | .bitAnd | .bitXor | .bitOr | .and | .or => child = parent
  | _ => false

namespace Expr

/-- Whether an operand of a binary operator stands in parentheses. A ternary encloses itself. -/
def enclosedIn (parent : BinOp) (onRight : Bool) : Expr → Bool
  | .binary child _ _ =>
    if child.level = parent.level then onRight && !parent.regroups child
    else child.level.rank < parent.level.rank
  | _ => false

/-- Whether the operand of a unary operator stands in parentheses. Two minus signs in a row would
be read as one decrement. -/
def enclosedUnder (op : UnOp) : Expr → Bool
  | .binary _ _ _ | .ternary _ _ _ => true
  | .unary inner _ => inner = .neg && op = .neg
  | .int v => op = .neg && v < 0
  | _ => false

def enclose (words : List Lexeme) : List Lexeme := .openParen :: words ++ [.closeParen]

mutual

/-- The words of an expression. Only a ternary depends on whether it is the outermost one. -/
def lexemes (outermost : Bool) : Expr → List Lexeme
  | .int v => if v < 0 then [.unary .neg, .number v.toInt.natAbs] else [.number v.toInt.natAbs]
  | .str s => [.str s]
  | .var name => [.name name]
  | .binary op l r =>
    (if l.enclosedIn op false then enclose (lexemes true l) else lexemes false l)
      ++ .binary op ::
      (if r.enclosedIn op true then enclose (lexemes true r) else lexemes false r)
  | .unary op e =>
    .unary op :: (if e.enclosedUnder op then enclose (lexemes true e) else lexemes false e)
  | .index array e => .name array :: .openBracket :: lexemes true e ++ [.closeBracket]
  | .call name [] => [.name name, .openParen, .closeParen]
  | .call name (arg :: args) =>
    .name name :: .openParen :: lexemes true arg ++ moreArgs args ++ [.closeParen]
  | .ternary c y n =>
    let words := lexemes false c ++ .question :: lexemes false y ++ .colon :: lexemes false n
    if outermost then words else enclose words

def moreArgs : List Expr → List Lexeme
  | [] => []
  | e :: es => .comma :: lexemes true e ++ moreArgs es

end

def text (e : Expr) : String := String.join ((e.lexemes true).map Lexeme.text)

end Expr

end Cartridge
