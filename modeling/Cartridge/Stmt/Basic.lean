import Cartridge.Expr.Basic
import Cartridge.Location

/-! Statements and the order in which they are visited. -/
namespace Cartridge

inductive AssignOp where
  | set
  | add
  | sub
  | mul
  | div
  | mod
  | bitAnd
  | bitOr
  | bitXor
  | shl
  | shr
  deriving DecidableEq, Repr

namespace AssignOp

def all : List AssignOp :=
  [.set, .add, .sub, .mul, .div, .mod, .bitAnd, .bitOr, .bitXor, .shl, .shr]

def token : AssignOp → String
  | .set => "="
  | .add => "+="
  | .sub => "-="
  | .mul => "*="
  | .div => "/="
  | .mod => "%="
  | .bitAnd => "&="
  | .bitOr => "|="
  | .bitXor => "^="
  | .shl => "<<="
  | .shr => ">>="

end AssignOp

/-- A statement and the place it was written at, if known. -/
inductive Stmt where
  | assign (target : String) (op : AssignOp) (value : Expr) (loc : Option Location)
  | cond (test : Expr) (yes : List Stmt) (no : Option (List Stmt)) (loc : Option Location)
  | loop (test : Expr) (body : List Stmt) (loc : Option Location)
  | range (counter : String) (first last : Int32) (body : List Stmt) (loc : Option Location)
  | call (name : String) (args : List Expr) (loc : Option Location)
  | changeScene (scene : String) (loc : Option Location)
  | raw (text : String) (loc : Option Location)
  | assignIndex (array : String) (subscript : Expr) (op : AssignOp) (value : Expr)
      (loc : Option Location)

namespace Stmt

def location : Stmt → Option Location
  | .assign _ _ _ loc | .cond _ _ _ loc | .loop _ _ loc | .range _ _ _ _ loc
  | .call _ _ loc | .changeScene _ loc | .raw _ loc | .assignIndex _ _ _ _ loc => loc

mutual

/-- A statement and all inside it, each before what it contains. -/
def walk : Stmt → List Stmt
  | .cond test yes none loc => .cond test yes none loc :: walkAll yes
  | .cond test yes (some no) loc => .cond test yes (some no) loc :: walkAll yes ++ walkAll no
  | .loop test body loc => .loop test body loc :: walkAll body
  | .range counter first last body loc => .range counter first last body loc :: walkAll body
  | s => [s]

def walkAll : List Stmt → List Stmt
  | [] => []
  | s :: rest => walk s ++ walkAll rest

end

mutual

def same : Stmt → Stmt → Bool
  | .assign t o e l, .assign t' o' e' l' => t = t' && o = o' && e = e' && l = l'
  | .cond e y n l, .cond e' y' n' l' => e = e' && sameAll y y' && sameBranch n n' && l = l'
  | .loop e b l, .loop e' b' l' => e = e' && sameAll b b' && l = l'
  | .range c x y b l, .range c' x' y' b' l' =>
    c = c' && x = x' && y = y' && sameAll b b' && l = l'
  | .call n a l, .call n' a' l' => n = n' && a = a' && l = l'
  | .changeScene n l, .changeScene n' l' => n = n' && l = l'
  | .raw t l, .raw t' l' => t = t' && l = l'
  | .assignIndex a i o e l, .assignIndex a' i' o' e' l' =>
    a = a' && i = i' && o = o' && e = e' && l = l'
  | _, _ => false

def sameAll : List Stmt → List Stmt → Bool
  | [], [] => true
  | a :: as, b :: bs => same a b && sameAll as bs
  | _, _ => false

def sameBranch : Option (List Stmt) → Option (List Stmt) → Bool
  | none, none => true
  | some as, some bs => sameAll as bs
  | _, _ => false

end

mutual

theorem same_iff : ∀ a b : Stmt, same a b = true ↔ a = b
  | .assign .., b => by cases b <;> simp [same, and_assoc]
  | .cond _ y n _, b => by
    cases b <;> simp [same, sameAll_iff y, sameBranch_iff n, and_assoc]
  | .loop _ body _, b => by cases b <;> simp [same, sameAll_iff body, and_assoc]
  | .range _ _ _ body _, b => by cases b <;> simp [same, sameAll_iff body, and_assoc]
  | .call .., b => by cases b <;> simp [same, and_assoc]
  | .changeScene .., b => by cases b <;> simp [same]
  | .raw .., b => by cases b <;> simp [same]
  | .assignIndex .., b => by cases b <;> simp [same, and_assoc]

theorem sameAll_iff : ∀ as bs : List Stmt, sameAll as bs = true ↔ as = bs
  | [], bs => by cases bs <;> simp [sameAll]
  | a :: as, bs => by cases bs <;> simp [sameAll, same_iff a, sameAll_iff as]

theorem sameBranch_iff : ∀ as bs : Option (List Stmt), sameBranch as bs = true ↔ as = bs
  | none, bs => by cases bs <;> simp [sameBranch]
  | some as, bs => by cases bs <;> simp [sameBranch, sameAll_iff as]

end

instance : DecidableEq Stmt := fun a b => decidable_of_iff _ (same_iff a b)

end Stmt

end Cartridge
