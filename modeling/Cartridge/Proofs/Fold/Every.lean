import Cartridge.Proofs.Fold.Normal

/-!
Properties of nodes that last while an expression is folded. What a rule leaves was there before, but for
literals and shifts, so only subscripts and calls can lose a property that all literals and operators have.
-/
namespace Cartridge.Folder
variable {f : Folder} {p : Expr → Prop}

/-- Literals and operators have a property whatever they are applied to, and subscripts and calls do not lose
it when what is in them is folded. -/
structure Keeps (f : Folder) (p : Expr → Prop) : Prop where
  int : ∀ v, p (.int v)
  binary : ∀ op l r, p (.binary op l r)
  unary : ∀ op e, p (.unary op e)
  index : ∀ array e, p (.index array e) → p (.index array (f.simplify e))
  call : ∀ name args, p (.call name args) → p (.call name (args.map f.simplify))
  ternary : ∀ c y n, p (.ternary c y n)

/-- A rule only leaves what was there before, literals and shifts. -/
theorem Rule.every (hp : f.Keeps p) {e e' : Expr} (h : Rule f e e') (he : e.Below p) : e'.Every p := by
  cases h with
  | literals | absorbRight | absorbLeft | cancel | negLiteral | notLiteral | bitNotLiteral =>
    exact hp.int _
  | zeroRight | oneRight | keep => exact he.1
  | zeroLeft | oneLeft => exact he.2
  | shiftLeft | quotient => exact ⟨hp.binary _ _ _,he.1,hp.int _⟩
  | shiftRight => exact ⟨hp.binary _ _ _,he.2,hp.int _⟩
  | twice op e => exact he.2
  | chosen hc y n => exact he.2.1
  | refused y n => exact he.2.2

theorem settle_every (hp : f.Keeps p) {e : Expr} (he : e.Every p) : (f.settle e).Every p := by
  fun_induction settle f e with
  | case1 e e' h ih => exact ih ((rule_of_reduce? h).every hp he.below)
  | case2 e h => exact he

/-- What folding keeps at every node, it keeps of the whole. -/
theorem simplify_every (hp : f.Keeps p) {e : Expr} (he : e.Every p) : (f.simplify e).Every p := by
  induction e with
  | int v | str s | var name => exact he
  | binary op l r ihl ihr => exact settle_every hp ⟨hp.binary _ _ _,ihl he.2.1,ihr he.2.2⟩
  | unary op e ih => exact settle_every hp ⟨hp.unary _ _,ih he.2⟩
  | index array e ih => exact ⟨hp.index array e he.1,ih he.2⟩
  | call name args ih =>
    have hargs := (Expr.everyOf_iff args).mp he.2
    rw [simplify, simplifyAll_eq_map]
    refine ⟨hp.call name args he.1,(Expr.everyOf_iff _).mpr ?_⟩
    exact List.forall_mem_map.mpr fun a ha => ih a ha (hargs a ha)
  | ternary c y n ihc ihy ihn =>
    exact settle_every hp ⟨hp.ternary _ _ _,ihc he.2.1,ihy he.2.2.1,ihn he.2.2.2⟩

end Cartridge.Folder
