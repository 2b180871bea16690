import Mathlib.Logic.Relation
import Cartridge.Proofs.Fold.Compute
import Cartridge.Proofs.Fold.Normal

/-!
Folding as a run of single steps. At each node the rules are tried once the operands are folded, and one
rule is all it takes: what it leaves behind is normal.
-/
namespace Cartridge

def Expr.operands : Expr → List Expr
  | .int _ | .str _ | .var _ => []
  | .binary _ l r => [l,r]
  | .unary _ e | .index _ e => [e]
  | .call _ args => args
  | .ternary c y n => [c,y,n]

namespace Folder
variable {f : Folder}

/-- The expression the rules are tried on: its operands are folded already. -/
def prepared (f : Folder) : Expr → Expr
  | .binary op l r => .binary op (f.simplify l) (f.simplify r)
  | .unary op e => .unary op (f.simplify e)
  | .index array e => .index array (f.simplify e)
  | .call name args => .call name (f.simplifyAll args)
  | .ternary c y n => .ternary (f.simplify c) (f.simplify y) (f.simplify n)
  | e => e

def Fires (f : Folder) (e e' : Expr) : Prop := f.reduce? e = some e'

/-- While an expression is folded, a rule turns one expression into another. -/
inductive Rewrites (f : Folder) : Expr → Expr → Expr → Prop where
  | root {e a b : Expr} (hrun : Relation.ReflTransGen f.Fires (f.prepared e) a) (h : f.Fires a b) :
      Rewrites f e a b
  | inside {e s a b : Expr} (hs : s ∈ e.operands) (h : Rewrites f s a b) : Rewrites f e a b

theorem Rewrites.fires {e a b : Expr} (h : f.Rewrites e a b) : f.Fires a b := by
  induction h with
  | root _ h => exact h
  | inside _ _ ih => exact ih

theorem simplify_eq_settle (e : Expr) : f.simplify e = f.settle (f.prepared e) := by
  cases e with
  | binary op l r => rfl
  | unary op e => rfl
  | ternary c y n => rfl
  | int | str | var | index | call => exact (settle_of_none rfl).symm

theorem normalBelow_prepared (e : Expr) : f.NormalBelow (f.prepared e) := by
  cases e with
  | int | str | var => trivial
  | binary op l r => exact ⟨simplify_normal l,simplify_normal r⟩
  | unary op e => exact simplify_normal e
  | index array e => exact simplify_normal e
  | call name args => exact (simplify_normal (.call name args)).below
  | ternary c y n => exact ⟨simplify_normal c,simplify_normal y,simplify_normal n⟩

/-- A shift of what is no literal stays as it is. -/
private theorem reduce?_shift {op : BinOp} (hop : op = .shl ∨ op = .shr) {l : Expr} {v : Int32}
    (hl : ∀ a, l ≠ .int a) : f.reduce? (.binary op l (.int v)) = none := by
  rcases hop with rfl | rfl
  · cases l with
    | int a => exact (hl a rfl).elim
    | _ => rfl
  · cases l with
    | int a => exact (hl a rfl).elim
    | _ => rfl

private theorem divides_power {a : Int32} {k : Nat} (hk : 1 ≤ k ∧ k ≤ 15) :
    divides a (.ofNat (Nat.pow 2 k)) = true := by
  obtain ⟨h₁,h₂⟩ := hk
  interval_cases k <;> simp [divides]

def IsShift (e : Expr) : Prop := ∃ op l v, (op = .shl ∨ op = .shr) ∧ e = .binary op l (.int v)

/-- No rule makes an expression larger. -/
theorem Rule.size_le {e e' : Expr} (h : Rule f e e') : e'.size ≤ e.size := by
  cases h <;> simp <;> omega

/-- What is as large as before was a product or quotient and is a shift now, and stays as it is. -/
theorem Fires.of_size_eq {e e' : Expr} (h : f.Fires e e') (hsize : e'.size = e.size) :
    isScaling e = true ∧ IsShift e' ∧ f.reduce? e' = none := by
  have hliteral {op : BinOp} {a b v : Int32} {l r : Expr} (hv : f.evaluate? op a b = some v) :
      ¬f.Fires (.binary op (.int a) (.int b)) (.binary .shl l r) ∧
        ¬f.Fires (.binary op (.int a) (.int b)) (.binary .shr l r) := by
    simp [Fires, reduce?, literals?, hv]
  cases rule_of_reduce? h with
  | shiftLeft hk hu =>
    refine ⟨rfl,⟨_,_,_,.inl rfl,rfl⟩,reduce?_shift (.inl rfl) ?_⟩
    rintro a rfl
    exact (hliteral rfl).1 h
  | shiftRight hk hu =>
    refine ⟨rfl,⟨_,_,_,.inl rfl,rfl⟩,reduce?_shift (.inl rfl) ?_⟩
    rintro a rfl
    exact (hliteral rfl).1 h
  | @quotient l k hk hu =>
    refine ⟨rfl,⟨_,_,_,.inr rfl,rfl⟩,reduce?_shift (.inr rfl) ?_⟩
    rintro a rfl
    have hv : f.evaluate? .div a (.ofNat (Nat.pow 2 k)) = some _ := if_pos (divides_power hk)
    exact (hliteral hv).2 h
  | _ =>
    simp only [Expr.size_binary, Expr.size_unary, Expr.size_ternary, Expr.size_int, Expr.size_var] at hsize
    omega

/-- A rule leaves nothing to do at the root. -/
theorem Fires.settled {e e' : Expr} (h : f.Fires e e') (hn : f.NormalBelow e) :
    f.reduce? e' = none := by
  cases rule_of_reduce? h with
  | literals | absorbRight | absorbLeft | cancel | keep | negLiteral | notLiteral | bitNotLiteral => rfl
  | zeroRight _ l => exact hn.1.root
  | oneRight _ l => exact hn.1.root
  | zeroLeft _ r => exact hn.2.root
  | oneLeft r => exact hn.2.root
  | twice op e => exact hn.below.root
  | chosen hc y n => exact hn.2.1.root
  | refused y n => exact hn.2.2.root
  | shiftLeft | quotient => exact (h.of_size_eq (by simp)).2.2
  | shiftRight => exact (h.of_size_eq (by simp [Nat.add_comm])).2.2

/-- The first rule that fires is the last. -/
theorem Fires.simplify_eq {e e' : Expr} (h : f.Fires (f.prepared e) e') : f.simplify e = e' := by
  rw [simplify_eq_settle, settle_of_some h, settle_of_none (h.settled (normalBelow_prepared e))]

theorem simplify_of_none {e : Expr} (h : f.reduce? (f.prepared e) = none) :
    f.simplify e = f.prepared e := by
  rw [simplify_eq_settle, settle_of_none h]

/-- Folding a node is at most one rule. -/
theorem simplify_cases (f : Folder) (e : Expr) :
    f.simplify e = f.prepared e ∨ f.Rule (f.prepared e) (f.simplify e) := by
  cases h : f.reduce? (f.prepared e) with
  | none => exact .inl (simplify_of_none h)
  | some e' =>
    rw [Fires.simplify_eq h]
    exact .inr (rule_of_reduce? h)

end Folder

end Cartridge
