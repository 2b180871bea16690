/-! Expressions of the target language, their operators and the names they read. -/
namespace Cartridge

inductive BinOp where
  | mul
  | div
  | mod
  | add
  | sub
  | shl
  | shr
  | lt
  | le
  | gt
  | ge
  | eq
  | ne
  | bitAnd
  | bitXor
  | bitOr
  | and
  | or
  deriving DecidableEq, Repr

/-- How tightly binary operators bind, loosest first. -/
inductive Level where
  | logicalOr
  | logicalAnd
  | bitOr
  | bitXor
  | bitAnd
  | equality
  | relational
  | shift
  | additive
  | multiplicative
  deriving DecidableEq, Repr

def Level.name : Level → String
  | .logicalOr => "LogicalOr"
  | .logicalAnd => "LogicalAnd"
  | .bitOr => "BitOr"
  | .bitXor => "BitXor"
  | .bitAnd => "BitAnd"
  | .equality => "Equality"
  | .relational => "Relational"
  | .shift => "Shift"
  | .additive => "Additive"
  | .multiplicative => "Multiplicative"

def Level.rank : Level → Nat
  | .logicalOr => 0
  | .logicalAnd => 1
  | .bitOr => 2
  | .bitXor => 3
  | .bitAnd => 4
  | .equality => 5
  | .relational => 6
  | .shift => 7
  | .additive => 8
  | .multiplicative => 9

namespace BinOp

def all : List BinOp :=
  [.mul, .div, .mod, .add, .sub, .shl, .shr, .lt, .le, .gt, .ge, .eq, .ne,
    .bitAnd, .bitXor, .bitOr, .and, .or]

def token : BinOp → String
  | .mul => "*"
  | .div => "/"
  | .mod => "%"
  | .add => "+"
  | .sub => "-"
  | .shl => "<<"
  | .shr => ">>"
  | .lt => "<"
  | .le => "<="
  | .gt => ">"
  | .ge => ">="
  | .eq => "=="
  | .ne => "!="
  | .bitAnd => "&"
  | .bitXor => "^"
  | .bitOr => "|"
  | .and => "&&"
  | .or => "||"

def level : BinOp → Level
  | .mul | .div | .mod => .multiplicative
  | .add | .sub => .additive
  | .shl | .shr => .shift
  | .lt | .le | .gt | .ge => .relational
  | .eq | .ne => .equality
  | .bitAnd => .bitAnd
  | .bitXor => .bitXor
  | .bitOr => .bitOr
  | .and => .logicalAnd
  | .or => .logicalOr

def isCommutative : BinOp → Bool
  | .mul | .add | .eq | .ne | .bitAnd | .bitXor | .bitOr | .and | .or => true
  | _ => false

end BinOp

inductive UnOp where
  | neg
  | not
  | bitNot
  deriving DecidableEq, Repr

namespace UnOp

def all : List UnOp := [.neg, .not, .bitNot]

def token : UnOp → String
  | .neg => "-"
  | .not => "!"
  | .bitNot => "~"

end UnOp

inductive Expr where
  | int (v : Int32)
  | str (s : String)
  | var (name : String)
  | binary (op : BinOp) (left right : Expr)
  | unary (op : UnOp) (operand : Expr)
  | index (array : String) (subscript : Expr)
  | call (name : String) (args : List Expr)
  | ternary (cond yes no : Expr)
  deriving Inhabited

namespace Expr

def intValue? : Expr → Option Int32
  | .int v => some v
  | _ => none

def varName? : Expr → Option String
  | .var name => some name
  | _ => none

/-- Whether evaluation has no side effects: nothing is called. -/
def isPure : Expr → Bool
  | .int _ | .str _ | .var _ => true
  | .binary _ l r => l.isPure && r.isPure
  | .unary _ e => e.isPure
  | .index _ e => e.isPure
  | .call _ _ => false
  | .ternary c y n => c.isPure && y.isPure && n.isPure

mutual

def vars : Expr → List String
  | .int _ | .str _ => []
  | .var name => [name]
  | .binary _ l r => l.vars ++ r.vars
  | .unary _ e => e.vars
  | .index _ e => e.vars
  | .call _ args => varsOf args
  | .ternary c y n => c.vars ++ y.vars ++ n.vars

def varsOf : List Expr → List String
  | [] => []
  | e :: es => e.vars ++ varsOf es

end

mutual

def size : Expr → Nat
  | .int _ | .str _ | .var _ => 1
  | .binary _ l r => l.size + r.size + 1
  | .unary _ e => e.size + 1
  | .index _ e => e.size + 1
  | .call _ args => sizeAll args + 1
  | .ternary c y n => c.size + y.size + n.size + 1

def sizeAll : List Expr → Nat
  | [] => 0
  | e :: es => e.size + sizeAll es

end

@[simp] theorem size_int (v : Int32) : (Expr.int v).size = 1 := rfl

@[simp] theorem size_var (name : String) : (Expr.var name).size = 1 := rfl

@[simp] theorem size_binary (op : BinOp) (l r : Expr) :
    (Expr.binary op l r).size = l.size + r.size + 1 := rfl

@[simp] theorem size_unary (op : UnOp) (e : Expr) : (Expr.unary op e).size = e.size + 1 := rfl

@[simp] theorem size_ternary (c y n : Expr) :
    (Expr.ternary c y n).size = c.size + y.size + n.size + 1 := rfl

mutual

def same : Expr → Expr → Bool
  | .int a, .int b => a = b
  | .str a, .str b => a = b
  | .var a, .var b => a = b
  | .binary o a b, .binary p c d => o = p && same a c && same b d
  | .unary o a, .unary p b => o = p && same a b
  | .index n a, .index m b => n = m && same a b
  | .call n as, .call m bs => n = m && sameAll as bs
  | .ternary a b c, .ternary d e f => same a d && same b e && same c f
  | _, _ => false

def sameAll : List Expr → List Expr → Bool
  | [], [] => true
  | a :: as, b :: bs => same a b && sameAll as bs
  | _, _ => false

end

mutual

theorem same_iff : ∀ a b : Expr, same a b = true ↔ a = b
  | .int _, b => by cases b <;> simp [same]
  | .str _, b => by cases b <;> simp [same]
  | .var _, b => by cases b <;> simp [same]
  | .binary _ l r, b => by cases b <;> simp [same, same_iff l, same_iff r, and_assoc]
  | .unary _ e, b => by cases b <;> simp [same, same_iff e]
  | .index _ e, b => by cases b <;> simp [same, same_iff e]
  | .call _ args, b => by cases b <;> simp [same, sameAll_iff args]
  | .ternary c y n, b => by
    cases b <;> simp [same, same_iff c, same_iff y, same_iff n, and_assoc]

theorem sameAll_iff : ∀ as bs : List Expr, sameAll as bs = true ↔ as = bs
  | [], bs => by cases bs <;> simp [sameAll]
  | a :: as, bs => by cases bs <;> simp [sameAll, same_iff a, sameAll_iff as]

end

instance : DecidableEq Expr := fun a b => decidable_of_iff _ (same_iff a b)

end Expr

end Cartridge
