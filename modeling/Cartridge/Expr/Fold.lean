import Cartridge.Expr.Basic
import Cartridge.Number.Domain

/-!
Constant folding and algebraic simplification in one numeric domain. Subexpressions are folded
first; then the rules are applied at the root until none fires, each making the expression smaller
or turning a product or quotient into a shift.
-/
namespace Cartridge

/-- The domain results are wrapped into, and the declared domains of variables and arrays. -/
structure Folder where
  domain : Domain
  declared : String → Option Domain := fun _ => none

namespace Folder

def wrap (f : Folder) (x : Int) : Int32 := .ofInt (f.domain.wrap x)

def truth (b : Bool) : Int32 := if b then 1 else 0

def divides (a b : Int32) : Bool := b ≠ 0 && !(a = Int32.minValue && b = -1)

def evaluate? (f : Folder) (op : BinOp) (a b : Int32) : Option Int32 :=
  match op with
  | .add => some (f.wrap (a.toInt + b.toInt))
  | .sub => some (f.wrap (a.toInt - b.toInt))
  | .mul => some (f.wrap (a.toInt * b.toInt))
  | .div => if divides a b then some (f.wrap (a.toInt.tdiv b.toInt)) else none
  | .mod => if divides a b then some (f.wrap (a.toInt.tmod b.toInt)) else none
  | .shl =>
    if 0 ≤ b.toInt ∧ b.toInt < f.domain.bits then
      some (f.wrap (a.toInt * (Nat.pow 2 b.toInt.toNat : Nat)))
    else none
  | .shr =>
    if 0 ≤ b.toInt ∧ b.toInt < f.domain.bits then
      some (.ofInt ((f.domain.wrap a.toInt).shiftRight b.toInt.toNat))
    else none
  | .lt => some (truth (a < b))
  | .le => some (truth (a ≤ b))
  | .gt => some (truth (b < a))
  | .ge => some (truth (b ≤ a))
  | .eq => some (truth (a = b))
  | .ne => some (truth (a ≠ b))
  | .bitAnd => some (f.wrap (a &&& b).toInt)
  | .bitXor => some (f.wrap (a ^^^ b).toInt)
  | .bitOr => some (f.wrap (a ||| b).toInt)
  | .and => some (truth (a ≠ 0 ∧ b ≠ 0))
  | .or => some (truth (a ≠ 0 ∨ b ≠ 0))

def literals? (f : Folder) (op : BinOp) : Expr → Expr → Option Expr
  | .int a, .int b => (f.evaluate? op a b).map .int
  | _, _ => none

/-- A product or conjunction with zero is zero unless the other operand calls something. -/
def absorb? (l r : Expr) : Option Expr :=
  if r = .int 0 ∧ l.isPure then some (.int 0)
  else if l = .int 0 ∧ r.isPure then some (.int 0)
  else none

def identity? (op : BinOp) (l r : Expr) : Option Expr :=
  match op with
  | .add | .bitOr | .bitXor =>
    if r = .int 0 then some l else if l = .int 0 then some r else none
  | .sub => if r = .int 0 then some l else none
  | .div => if r = .int 1 then some l else none
  | .mul => if r = .int 1 then some l else if l = .int 1 then some r else absorb? l r
  | .bitAnd => absorb? l r
  | _ => none

def cancel? (op : BinOp) : Expr → Expr → Option Expr
  | .var a, .var b =>
    if a = b then
      match op with
      | .sub | .bitXor => some (.int 0)
      | .bitAnd | .bitOr => some (.var a)
      | _ => none
    else none
  | _, _ => none

/-- The exponent of a literal power of two from 2 to 2^15. -/
def exponent? (e : Expr) : Option Nat :=
  (List.range' 1 15).find? fun k => e = .int (.ofNat (Nat.pow 2 k))

def isUnsigned (f : Folder) : Expr → Bool
  | .int v => 0 ≤ v
  | .var name | .index name _ => !((f.declared name).getD f.domain).isSigned
  | _ => !f.domain.isSigned

def shift? (f : Folder) (op : BinOp) (e : Expr) (k : Nat) : Option Expr :=
  if f.isUnsigned e then some (.binary op e (.int (.ofNat k))) else none

/-- A product with or a quotient by a power of two becomes a shift. -/
def strength? (f : Folder) (op : BinOp) (l r : Expr) : Option Expr :=
  match op with
  | .mul => match exponent? r, exponent? l with
    | some k, _ => f.shift? .shl l k
    | none, some k => f.shift? .shl r k
    | none, none => none
  | .div => (exponent? r).bind (f.shift? .shr l)
  | _ => none

/-- A unary operator cancels itself, and on a literal it is evaluated. -/
def unary? (f : Folder) (op : UnOp) : Expr → Option Expr
  | .unary inner e => if inner = op then some e else none
  | .int a => some <| .int <| match op with
    | .neg => f.wrap (-a.toInt)
    | .not => truth (a = 0)
    | .bitNot => f.wrap (~~~a).toInt
  | _ => none

def reduce? (f : Folder) : Expr → Option Expr
  | .binary op l r =>
    (f.literals? op l r).or ((identity? op l r).or ((cancel? op l r).or (f.strength? op l r)))
  | .unary op e => f.unary? op e
  | .ternary (.int c) y n => some (if c ≠ 0 then y else n)
  | _ => none

def isScaling : Expr → Bool
  | .binary .mul _ _ | .binary .div _ _ => true
  | _ => false

/-- The size of an expression counted twice, and once more for a product or quotient. -/
def rank (e : Expr) : Nat := 2 * e.size + (if isScaling e then 1 else 0)

theorem size_pos (e : Expr) : 0 < e.size := by
  cases e <;> exact Nat.succ_pos _

theorem rank_le (e : Expr) : rank e ≤ 2 * e.size + 1 := by
  unfold rank
  split <;> omega

theorem le_rank (e : Expr) : 2 * e.size ≤ rank e := by
  unfold rank
  omega

theorem rank_lt_of_size_lt {a b : Expr} (h : a.size < b.size) : rank a < rank b := by
  have := rank_le a
  have := le_rank b
  omega

theorem literals?_size_lt {f : Folder} {op l r e} (h : f.literals? op l r = some e) :
    e.size < (Expr.binary op l r).size := by
  unfold literals? at h
  split at h
  · obtain ⟨v, -, rfl⟩ := Option.map_eq_some_iff.1 h
    simp
  · simp at h

theorem absorb?_size_lt {l r e : Expr} (h : absorb? l r = some e) :
    e.size < l.size + r.size + 1 := by
  have := size_pos l
  unfold absorb? at h
  split at h
  · cases h
    rw [Expr.size_int]
    omega
  · split at h
    · cases h
      rw [Expr.size_int]
      omega
    · simp at h

theorem identity?_size_lt {op : BinOp} {l r e : Expr} (h : identity? op l r = some e) :
    e.size < (Expr.binary op l r).size := by
  have hl := size_pos l
  have hr := size_pos r
  rw [Expr.size_binary]
  have ha := @absorb?_size_lt l r e
  unfold identity? at h
  grind

theorem cancel?_size_lt {op : BinOp} {l r e : Expr} (h : cancel? op l r = some e) :
    e.size < (Expr.binary op l r).size := by
  unfold cancel? at h
  repeat' split at h
  all_goals simp at h
  all_goals subst h; simp

theorem shift?_rank {f : Folder} {op : BinOp} {l e : Expr} {k : Nat}
    (hop : op = .shl ∨ op = .shr) (h : f.shift? op l k = some e) : rank e = 2 * (l.size + 2) := by
  unfold shift? at h
  split at h
  · cases h
    rcases hop with rfl | rfl <;> simp [rank, isScaling]
  · simp at h

theorem strength?_rank_lt {f : Folder} {op : BinOp} {l r e : Expr}
    (h : f.strength? op l r = some e) : rank e < rank (.binary op l r) := by
  have hl := size_pos l
  have hr := size_pos r
  unfold strength? at h
  split at h
  · split at h
    · rw [shift?_rank (.inl rfl) h]
      simp only [rank, isScaling, Expr.size_binary, if_true]
      omega
    · rw [shift?_rank (.inl rfl) h]
      simp only [rank, isScaling, Expr.size_binary, if_true]
      omega
    · simp at h
  · obtain ⟨k, -, h⟩ := Option.bind_eq_some_iff.1 h
    rw [shift?_rank (.inr rfl) h]
    simp only [rank, isScaling, Expr.size_binary, if_true]
    omega
  · simp at h

theorem unary?_size_lt {f : Folder} {op : UnOp} {e e' : Expr} (h : f.unary? op e = some e') :
    e'.size < (Expr.unary op e).size := by
  unfold unary? at h
  split at h
  · split at h
    · cases h
      rw [Expr.size_unary, Expr.size_unary]
      omega
    · simp at h
  · cases h
    simp
  · simp at h

/-- Every rule lowers the rank. -/
theorem reduce?_rank_lt {f : Folder} {e e' : Expr} (h : f.reduce? e = some e') :
    rank e' < rank e := by
  unfold reduce? at h
  split at h
  · rcases Option.or_eq_some_iff.1 h with h | ⟨-, h⟩
    · exact rank_lt_of_size_lt (literals?_size_lt h)
    rcases Option.or_eq_some_iff.1 h with h | ⟨-, h⟩
    · exact rank_lt_of_size_lt (identity?_size_lt h)
    rcases Option.or_eq_some_iff.1 h with h | ⟨-, h⟩
    · exact rank_lt_of_size_lt (cancel?_size_lt h)
    · exact strength?_rank_lt h
  · exact rank_lt_of_size_lt (unary?_size_lt h)
  · apply rank_lt_of_size_lt
    cases h
    split <;> rw [Expr.size_ternary] <;> omega
  · simp at h

def settle (f : Folder) (e : Expr) : Expr :=
  match _h : f.reduce? e with
  | some e' => settle f e'
  | none => e
termination_by rank e
decreasing_by exact reduce?_rank_lt ‹_›

mutual

def simplify (f : Folder) : Expr → Expr
  | .int v => .int v
  | .str s => .str s
  | .var name => .var name
  | .binary op l r => f.settle (.binary op (simplify f l) (simplify f r))
  | .unary op e => f.settle (.unary op (simplify f e))
  | .index array e => .index array (simplify f e)
  | .call name args => .call name (simplifyAll f args)
  | .ternary c y n => f.settle (.ternary (simplify f c) (simplify f y) (simplify f n))

def simplifyAll (f : Folder) : List Expr → List Expr
  | [] => []
  | e :: es => simplify f e :: simplifyAll f es

end

def fold? (f : Folder) (e : Expr) : Option Expr :=
  let folded := f.simplify e
  if folded = e then none else some folded

end Folder

end Cartridge
