import Cartridge.Proofs.Fold.Compute
import Cartridge.Proofs.Fold.Rule

/-!
Folding and exact values. Most rules keep the exact value of an expression, whatever its names stand
for. Those that may not are told apart: literals are wrapped into the domain, a quotient may become a
shift of a negative number, and a doubled negation is more than its operand.
-/
namespace Cartridge

namespace Expr
variable {ρ : Valuation} {l r : Expr} {x : Int}

/-- An operation that needs both operands. -/
theorem value?_binary_iff {op : BinOp} (hop : ∀ a, op.decided? a = none) :
    (binary op l r).value? ρ = some x ↔
      ∃ a b, l.value? ρ = some a ∧ r.value? ρ = some b ∧ op.value? a b = some x := by
  simp [value?, BinOp.combine?, hop, Option.bind_eq_some_iff]

theorem value?_unary_iff {op : UnOp} {e : Expr} :
    (unary op e).value? ρ = some x ↔ ∃ a, e.value? ρ = some a ∧ op.value a = x := by
  simp [value?]

theorem value?_ternary_iff {c y n : Expr} :
    (ternary c y n).value? ρ = some x ↔
      ∃ b, c.value? ρ = some b ∧ (if b = 0 then n.value? ρ else y.value? ρ) = some x := by
  simp [value?, Option.bind_eq_some_iff]

@[simp] theorem value?_int (v : Int32) : (int v).value? ρ = some v.toInt := rfl

@[simp] theorem value?_var (name : String) : (var name).value? ρ = some (ρ.var name) := rfl

end Expr

/-- Minus and complement undo themselves. -/
theorem UnOp.value_value {op : UnOp} (hop : op ≠ .not) (a : Int) : op.value (op.value a) = a := by
  cases op with
  | not => exact (hop rfl).elim
  | neg => exact Int.neg_neg a
  | bitNot => cases a <;> rfl

namespace Folder
variable {f : Folder}

/-- The rules that need not keep an exact value. -/
inductive Lossy (f : Folder) : Expr → Expr → Prop where
  | literals {op : BinOp} {a b v : Int32} (h : f.evaluate? op a b = some v) :
      Lossy f (.binary op (.int a) (.int b)) (.int v)
  | negLiteral (a : Int32) : Lossy f (.unary .neg (.int a)) (.int (f.wrap (-a.toInt)))
  | bitNotLiteral (a : Int32) : Lossy f (.unary .bitNot (.int a)) (.int (f.wrap (~~~a).toInt))
  | doubleNot (e : Expr) : Lossy f (.unary .not (.unary .not e)) e
  | quotient {l : Expr} {k : Nat} (hk : 1 ≤ k ∧ k ≤ 15) (hu : f.isUnsigned l = true) :
      Lossy f (.binary .div l (.int (.ofNat (Nat.pow 2 k)))) (.binary .shr l (.int (.ofNat k)))

/-- Wherever the first expression has a value, the second has the same. -/
def Exact (e e' : Expr) : Prop := ∀ ρ x, e.value? ρ = some x → e'.value? ρ = some x

section operands
variable {op : BinOp} (hop : ∀ a, op.decided? a = none)
include hop

private theorem exact_left {l : Expr} {v : Int32}
    (hx : ∀ a x, op.value? a v.toInt = some x → x = a) : Exact (.binary op l (.int v)) l := by
  intro ρ x h
  obtain ⟨a,b,ha,hb,hab⟩ := (Expr.value?_binary_iff hop).mp h
  cases hb
  rw [hx a x hab]
  exact ha

private theorem exact_right {r : Expr} {v : Int32}
    (hx : ∀ b x, op.value? v.toInt b = some x → x = b) : Exact (.binary op (.int v) r) r := by
  intro ρ x h
  obtain ⟨a,b,ha,hb,hab⟩ := (Expr.value?_binary_iff hop).mp h
  cases ha
  rw [hx b x hab]
  exact hb

private theorem exact_absorbed {l r : Expr} (hzero : l = .int 0 ∨ r = .int 0)
    (hx : ∀ a x, (op.value? a 0 = some x → x = 0) ∧ (op.value? 0 a = some x → x = 0)) :
    Exact (.binary op l r) (.int 0) := by
  intro ρ x h
  obtain ⟨a,b,ha,hb,hab⟩ := (Expr.value?_binary_iff hop).mp h
  rcases hzero with rfl | rfl
  · cases ha
    rw [(hx b x).2 hab]
    rfl
  · cases hb
    rw [(hx a x).1 hab]
    rfl

private theorem exact_self {name : String} {e : Expr}
    (hx : ∀ (ρ : Valuation) x, op.value? (ρ.var name) (ρ.var name) = some x → e.value? ρ = some x) :
    Exact (.binary op (.var name) (.var name)) e := by
  intro ρ x h
  obtain ⟨a,b,ha,hb,hab⟩ := (Expr.value?_binary_iff hop).mp h
  cases ha
  cases hb
  exact hx ρ x hab

end operands

/-- A product with a power of two is a shift. -/
private theorem exact_scaled {l r e : Expr} {k : Nat} (hk : 1 ≤ k ∧ k ≤ 15)
    (h : l = e ∧ r = .int (.ofNat (Nat.pow 2 k)) ∨ l = .int (.ofNat (Nat.pow 2 k)) ∧ r = e) :
    Exact (.binary .mul l r) (.binary .shl e (.int (.ofNat k))) := by
  intro ρ x hx
  obtain ⟨hp,he⟩ := toInt_power hk
  have hshift (a : Int) (hv : e.value? ρ = some a) :
      (Expr.binary .shl e (.int (.ofNat k))).value? ρ = some (a * 2 ^ k) :=
    (Expr.value?_binary_iff fun _ => rfl).mpr ⟨a,k,hv,congrArg some he,by simp [BinOp.value?]⟩
  obtain ⟨a,b,ha,hb,hab⟩ := (Expr.value?_binary_iff fun _ => rfl).mp hx
  cases hab
  rcases h with ⟨rfl,rfl⟩ | ⟨rfl,rfl⟩
  · rw [Expr.value?_int, hp] at hb
    cases hb
    exact hshift a ha
  · rw [Expr.value?_int, hp] at ha
    cases ha
    rw [mul_comm]
    exact hshift b hb

/-- A rule keeps exact values unless it is one of those that need not. -/
theorem Rule.exact_or_lossy {e e' : Expr} (h : Rule f e e') : Exact e e' ∨ f.Lossy e e' := by
  cases h with
  | literals h => exact .inr (.literals h)
  | negLiteral a => exact .inr (.negLiteral a)
  | bitNotLiteral a => exact .inr (.bitNotLiteral a)
  | quotient hk hu => exact .inr (.quotient hk hu)
  | zeroRight h l =>
    left
    rcases h with rfl | rfl | rfl | rfl <;>
      exact exact_left (fun _ => rfl) fun a x => by simp [BinOp.value?, eq_comm]
  | zeroLeft h r =>
    left
    rcases h with rfl | rfl | rfl <;>
      exact exact_right (fun _ => rfl) fun b x => by simp [BinOp.value?, eq_comm]
  | oneRight h l =>
    left
    rcases h with rfl | rfl <;>
      exact exact_left (fun _ => rfl) fun a x => by simp [BinOp.value?, eq_comm]
  | oneLeft r => exact .inl (exact_right (fun _ => rfl) fun b x => by simp [BinOp.value?, eq_comm])
  | absorbRight h hl =>
    left
    rcases h with rfl | rfl <;>
      exact exact_absorbed (fun _ => rfl) (.inr rfl) fun a x => by simp [BinOp.value?, eq_comm]
  | absorbLeft h hr =>
    left
    rcases h with rfl | rfl <;>
      exact exact_absorbed (fun _ => rfl) (.inl rfl) fun a x => by simp [BinOp.value?, eq_comm]
  | cancel h name =>
    left
    rcases h with rfl | rfl <;> exact exact_self (fun _ => rfl) fun ρ x => by simp [BinOp.value?]
  | keep h name =>
    left
    rcases h with rfl | rfl <;> exact exact_self (fun _ => rfl) fun ρ x => by simp [BinOp.value?]
  | shiftLeft hk hu => exact .inl (exact_scaled hk (.inl ⟨rfl,rfl⟩))
  | shiftRight hk hu => exact .inl (exact_scaled hk (.inr ⟨rfl,rfl⟩))
  | twice op _ =>
    by_cases hop : op = .not
    · subst hop
      exact .inr (.doubleNot _)
    · left
      intro ρ x h
      obtain ⟨a,ha,rfl⟩ := Expr.value?_unary_iff.mp h
      obtain ⟨b,hb,rfl⟩ := Expr.value?_unary_iff.mp ha
      rw [UnOp.value_value hop]
      exact hb
  | notLiteral a =>
    left
    intro ρ x h
    cases h
    simp [UnOp.value, truthValue, toInt_zero_iff]
  | chosen hc y n =>
    left
    intro ρ x h
    obtain ⟨b,hb,hx⟩ := Expr.value?_ternary_iff.mp h
    cases hb
    rwa [if_neg ((toInt_zero_iff _).not.mpr hc)] at hx
  | refused y n =>
    left
    intro ρ x h
    obtain ⟨b,hb,hx⟩ := Expr.value?_ternary_iff.mp h
    cases hb
    exact hx

end Folder

end Cartridge
