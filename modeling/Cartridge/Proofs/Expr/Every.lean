import Cartridge.Expr.Basic

/-! Statements about every subexpression, and the induction over expressions that goes with them. -/
namespace Cartridge.Expr

/-- Induction over expressions, the arguments of a call being covered one by one. -/
@[induction_eliminator]
theorem induction {motive : Expr → Prop} (int : ∀ v, motive (.int v)) (str : ∀ s, motive (.str s))
    (var : ∀ name, motive (.var name))
    (binary : ∀ op l r, motive l → motive r → motive (.binary op l r))
    (unary : ∀ op e, motive e → motive (.unary op e))
    (index : ∀ array e, motive e → motive (.index array e))
    (call : ∀ name args, (∀ a ∈ args, motive a) → motive (.call name args))
    (ternary : ∀ c y n, motive c → motive y → motive n → motive (.ternary c y n)) (e : Expr) :
    motive e :=
  @Expr.rec motive (fun args => ∀ a ∈ args, motive a) int str var binary unary index call ternary
    (by simp) (fun _ _ ha has => by simpa using ⟨ha,has⟩) e

mutual

/-- The expression and all its subexpressions satisfy a predicate. -/
def Every (p : Expr → Prop) : Expr → Prop
  | .int v => p (.int v)
  | .str s => p (.str s)
  | .var name => p (.var name)
  | .binary op l r => p (.binary op l r) ∧ Every p l ∧ Every p r
  | .unary op e => p (.unary op e) ∧ Every p e
  | .index array e => p (.index array e) ∧ Every p e
  | .call name args => p (.call name args) ∧ EveryOf p args
  | .ternary c y n => p (.ternary c y n) ∧ Every p c ∧ Every p y ∧ Every p n

def EveryOf (p : Expr → Prop) : List Expr → Prop
  | [] => True
  | e :: es => Every p e ∧ EveryOf p es

end

def Below (p : Expr → Prop) : Expr → Prop
  | .int _ | .str _ | .var _ => True
  | .binary _ l r => l.Every p ∧ r.Every p
  | .unary _ e | .index _ e => e.Every p
  | .call _ args => EveryOf p args
  | .ternary c y n => c.Every p ∧ y.Every p ∧ n.Every p

variable {p q : Expr → Prop}

theorem everyOf_iff (args : List Expr) : EveryOf p args ↔ ∀ a ∈ args, a.Every p := by
  induction args with
  | nil => simp [EveryOf]
  | cons a args ih => simp [EveryOf, ih]

theorem every_iff (e : Expr) : e.Every p ↔ p e ∧ e.Below p := by
  cases e <;> simp [Every, Below]

theorem Every.root {e : Expr} (h : e.Every p) : p e := ((every_iff e).mp h).1

theorem Every.below {e : Expr} (h : e.Every p) : e.Below p := ((every_iff e).mp h).2

theorem Every.of_below {e : Expr} (hp : p e) (h : e.Below p) : e.Every p :=
  (every_iff e).mpr ⟨hp,h⟩

theorem Every.mono {e : Expr} (h : e.Every p) (hpq : ∀ s, p s → q s) : e.Every q := by
  induction e with
  | int _ | str _ | var _ => exact hpq _ h
  | binary op l r ihl ihr => exact ⟨hpq _ h.1,ihl h.2.1,ihr h.2.2⟩
  | unary op e ih | index array e ih => exact ⟨hpq _ h.1,ih h.2⟩
  | call name args ih =>
    refine ⟨hpq _ h.1,(everyOf_iff args).mpr fun a ha => ih a ha ?_⟩
    exact (everyOf_iff args).mp h.2 a ha
  | ternary c y n ihc ihy ihn =>
    exact ⟨hpq _ h.1,ihc h.2.1,ihy h.2.2.1,ihn h.2.2.2⟩

theorem every_forall {ι : Type} {p : ι → Expr → Prop} {e : Expr} (h : ∀ i, e.Every (p i)) :
    e.Every fun s => ∀ i, p i s := by
  induction e with
  | int _ | str _ | var _ => exact h
  | binary op l r ihl ihr =>
    exact ⟨fun i => (h i).1,ihl fun i => (h i).2.1,ihr fun i => (h i).2.2⟩
  | unary op e ih | index array e ih => exact ⟨fun i => (h i).1,ih fun i => (h i).2⟩
  | call name args ih =>
    refine ⟨fun i => (h i).1,(everyOf_iff args).mpr fun a ha => ih a ha fun i => ?_⟩
    exact (everyOf_iff args).mp (h i).2 a ha
  | ternary c y n ihc ihy ihn =>
    exact ⟨fun i => (h i).1,ihc fun i => (h i).2.1,ihy fun i => (h i).2.2.1,ihn fun i => (h i).2.2.2⟩

/-- Where not every subexpression satisfies a predicate, there is a subexpression that does not. -/
theorem exists_of_not_every {e : Expr} (h : ¬e.Every p) : ∃ s, ¬p s ∧ ∀ r, e.Every r → r s := by
  have hpart : e.Every fun s => ∀ r : {r // e.Every r}, r.1 s := every_forall fun r => r.2
  apply Classical.byContradiction
  intro hnone
  refine h (hpart.mono fun s hs => Classical.byContradiction fun hp => hnone ⟨s,hp,?_⟩)
  exact fun r hr => hs ⟨r,hr⟩

mutual

def decEvery [DecidablePred p] : (e : Expr) → Decidable (e.Every p)
  | .int v => inferInstanceAs (Decidable (p (.int v)))
  | .str s => inferInstanceAs (Decidable (p (.str s)))
  | .var name => inferInstanceAs (Decidable (p (.var name)))
  | .binary op l r =>
    have := decEvery l
    have := decEvery r
    inferInstanceAs (Decidable (p (.binary op l r) ∧ l.Every p ∧ r.Every p))
  | .unary op e =>
    have := decEvery e
    inferInstanceAs (Decidable (p (.unary op e) ∧ e.Every p))
  | .index array e =>
    have := decEvery e
    inferInstanceAs (Decidable (p (.index array e) ∧ e.Every p))
  | .call name args =>
    have := decEveryOf args
    inferInstanceAs (Decidable (p (.call name args) ∧ EveryOf p args))
  | .ternary c y n =>
    have := decEvery c
    have := decEvery y
    have := decEvery n
    inferInstanceAs (Decidable (p (.ternary c y n) ∧ c.Every p ∧ y.Every p ∧ n.Every p))

def decEveryOf [DecidablePred p] : (args : List Expr) → Decidable (EveryOf p args)
  | [] => inferInstanceAs (Decidable True)
  | e :: es =>
    have := decEvery e
    have := decEveryOf es
    inferInstanceAs (Decidable (e.Every p ∧ EveryOf p es))

end

instance [DecidablePred p] (e : Expr) : Decidable (e.Every p) := decEvery e

end Cartridge.Expr
