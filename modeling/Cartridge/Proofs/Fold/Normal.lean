import Cartridge.Proofs.Expr.Every
import Cartridge.Proofs.Fold.Rule

/-!
What folding leaves behind. A rule applied above normal operands gives an expression whose operands
are normal again, so settling ends in a normal expression and a second pass finds nothing to do.
-/
namespace Cartridge.Folder
variable {f : Folder}

def Normal (f : Folder) (e : Expr) : Prop := e.Every fun e => f.reduce? e = none

def NormalBelow (f : Folder) (e : Expr) : Prop := e.Below fun e => f.reduce? e = none

theorem settle_of_none {e : Expr} (h : f.reduce? e = none) : f.settle e = e := by
  rw [settle]
  split
  · rename_i h'
    simp [h] at h'
  · rfl

theorem settle_of_some {e e' : Expr} (h : f.reduce? e = some e') : f.settle e = f.settle e' := by
  rw [settle]
  split
  · rename_i h'
    rw [Option.some.inj (h'.symm.trans h)]
  · rename_i h'
    simp [h] at h'

/-- One rule keeps the operands normal. -/
theorem Rule.normalBelow {e e' : Expr} (h : Rule f e e') (hn : f.NormalBelow e) :
    f.NormalBelow e' := by
  cases h with
  | literals | absorbRight | absorbLeft | cancel | keep | negLiteral | notLiteral | bitNotLiteral =>
    trivial
  | zeroRight _ l => exact hn.1.below
  | oneRight _ l => exact hn.1.below
  | zeroLeft _ r => exact hn.2.below
  | oneLeft r => exact hn.2.below
  | shiftLeft hk hu => exact ⟨hn.1,rfl⟩
  | quotient hk hu => exact ⟨hn.1,rfl⟩
  | shiftRight hk hu => exact ⟨hn.2,rfl⟩
  | twice op e => exact hn.below.below
  | chosen hc y n => exact hn.2.1.below
  | refused y n => exact hn.2.2.below

/-- Settling an expression with normal operands ends in a normal expression. -/
theorem settle_normal {e : Expr} (hn : f.NormalBelow e) : f.Normal (f.settle e) := by
  fun_induction settle f e with
  | case1 e e' h ih => exact ih ((rule_of_reduce? h).normalBelow hn)
  | case2 e h => exact .of_below h hn

theorem simplifyAll_eq_map (args : List Expr) : f.simplifyAll args = args.map f.simplify := by
  induction args with
  | nil => rfl
  | cons a args ih => simp [simplifyAll, ih]

/-- Folding leaves no node at which a rule fires. -/
theorem simplify_normal (e : Expr) : f.Normal (f.simplify e) := by
  induction e with
  | int v => rfl
  | str s => rfl
  | var name => rfl
  | binary op l r hl hr => exact settle_normal ⟨hl,hr⟩
  | unary op e he => exact settle_normal he
  | index array e he => exact ⟨rfl,he⟩
  | call name args hargs =>
    refine ⟨rfl,(Expr.everyOf_iff _).mpr ?_⟩
    rw [simplifyAll_eq_map]
    intro a ha
    obtain ⟨b,hb,rfl⟩ := List.mem_map.mp ha
    exact hargs b hb
  | ternary c y n hc hy hn => exact settle_normal ⟨hc,hy,hn⟩

/-- Folding leaves a normal expression alone. -/
theorem simplify_of_normal {e : Expr} (h : f.Normal e) : f.simplify e = e := by
  induction e with
  | int v => rfl
  | str s => rfl
  | var name => rfl
  | binary op l r hl hr =>
    obtain ⟨h,hnl,hnr⟩ := h
    rw [simplify, hl hnl, hr hnr, settle_of_none h]
  | unary op e he =>
    obtain ⟨h,hn⟩ := h
    rw [simplify, he hn, settle_of_none h]
  | index array e he => rw [simplify, he h.2]
  | call name args hargs =>
    have hn := (Expr.everyOf_iff args).mp h.2
    rw [simplify, simplifyAll_eq_map, List.map_congr_left fun a ha => hargs a ha (hn a ha)]
    simp
  | ternary c y n hc hy hn =>
    obtain ⟨h,hnc,hny,hnn⟩ := h
    rw [simplify, hc hnc, hy hny, hn hnn, settle_of_none h]

/-- Folding is finished after one pass: no rule fires anywhere in its result, so folding that again
changes nothing. -/
theorem simplify_idempotent (f : Folder) (e : Expr) :
    f.Normal (f.simplify e) ∧ f.fold? (f.simplify e) = none ∧
      f.simplify (f.simplify e) = f.simplify e := by
  have h := simplify_of_normal (simplify_normal (f := f) e)
  exact ⟨simplify_normal e,if_pos h,h⟩

end Cartridge.Folder
