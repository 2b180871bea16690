import Cartridge.Proofs.Fold.Step

/-!
Folding comes to an end. A rule makes an expression smaller, or it turns a product or quotient into a shift of the
same size that no rule applies to. So at every node fewer rules follow each other than there are nodes, each way to
fold an expression ends in the same result, and the result is no larger than the expression.
-/
namespace Cartridge.Folder
variable {f : Folder}

def after (f : Folder) : Nat → Expr → Option Expr
  | 0, e => some e
  | n + 1, e => (f.reduce? e).bind (f.after n)

/-- Every rule makes progress. -/
theorem Fires.size_lt_or_shift {a b : Expr} (h : f.Fires a b) :
    b.size < a.size ∨ b.size = a.size ∧ isScaling a = true ∧ IsShift b ∧ f.reduce? b = none :=
  (rule_of_reduce? h).size_le.lt_or_eq.imp_right fun hsize => ⟨hsize,h.of_size_eq hsize⟩

theorem one_lt_size_of_isScaling {e : Expr} (h : isScaling e = true) : 1 < e.size := by
  cases e with
  | binary op l r =>
    have hl := size_pos l
    rw [Expr.size_binary]
    omega
  | _ => cases h

/-- The rules at a node stop firing before they are as many as there are nodes. -/
theorem exists_after_settle (f : Folder) (e : Expr) :
    ∃ n < e.size, f.after n e = some (f.settle e) ∧ f.after (n + 1) e = none := by
  fun_induction settle f e with
  | case1 e e' h ih =>
    rcases Fires.size_lt_or_shift h with hless | ⟨-,hscaling,-,hlast⟩
    · obtain ⟨n,hn,hreached,hended⟩ := ih
      exact ⟨n + 1,by omega,by rw [after, h]; exact hreached,by rw [after, h]; exact hended⟩
    · refine ⟨1,one_lt_size_of_isScaling hscaling,?_,?_⟩
      · simp [after, h, settle_of_none hlast]
      · simp [after, h, hlast]
  | case2 e h => exact ⟨0,size_pos e,rfl,by simp [after, h]⟩

/-- The rules at the root turn one expression into another to which none applies. -/
def Settles (f : Folder) (a b : Expr) : Prop := Relation.ReflTransGen f.Fires a b ∧ f.reduce? b = none

theorem settles_iff {a b : Expr} : f.Settles a b ↔ b = f.settle a := by
  constructor
  · rintro ⟨hrun,hlast⟩
    induction hrun using Relation.ReflTransGen.head_induction_on with
    | refl => exact (settle_of_none hlast).symm
    | head h _ ih => rw [ih, settle_of_some h]
  · rintro rfl
    fun_induction settle f a with
    | case1 e e' h ih => exact ⟨.head h ih.1,ih.2⟩
    | case2 e h => exact ⟨.refl,h⟩

/-- An expression is folded to another: its operands are, and then rules are applied at the root until none fires. -/
inductive Folds (f : Folder) : Expr → Expr → Prop
  | int (v : Int32) : Folds f (.int v) (.int v)
  | str (s : String) : Folds f (.str s) (.str s)
  | var (name : String) : Folds f (.var name) (.var name)
  | binary {op : BinOp} {l r l' r' e : Expr} (hl : Folds f l l') (hr : Folds f r r')
      (h : f.Settles (.binary op l' r') e) : Folds f (.binary op l r) e
  | unary {op : UnOp} {x x' e : Expr} (hx : Folds f x x') (h : f.Settles (.unary op x') e) : Folds f (.unary op x) e
  | index {array : String} {x x' e : Expr} (hx : Folds f x x') (h : f.Settles (.index array x') e) :
      Folds f (.index array x) e
  | call {name : String} {args : List Expr} {e : Expr} (folded : Expr → Expr) (hargs : ∀ a ∈ args, Folds f a (folded a))
      (h : f.Settles (.call name (args.map folded)) e) : Folds f (.call name args) e
  | ternary {c y n c' y' n' e : Expr} (hc : Folds f c c') (hy : Folds f y y') (hn : Folds f n n')
      (h : f.Settles (.ternary c' y' n') e) : Folds f (.ternary c y n) e

theorem folds_simplify (f : Folder) (e : Expr) : f.Folds e (f.simplify e) := by
  have hsettles (e : Expr) : f.Settles (f.prepared e) (f.simplify e) := settles_iff.mpr (simplify_eq_settle e)
  induction e with
  | int v => exact .int v
  | str s => exact .str s
  | var name => exact .var name
  | binary op l r hl hr => exact .binary hl hr (hsettles (.binary op l r))
  | unary op x hx => exact .unary hx (hsettles (.unary op x))
  | index array x hx => exact .index hx (hsettles (.index array x))
  | call name args hargs =>
    have h := hsettles (.call name args)
    rw [prepared, simplifyAll_eq_map] at h
    exact .call f.simplify hargs h
  | ternary c y n hc hy hn => exact .ternary hc hy hn (hsettles (.ternary c y n))

theorem Folds.eq_simplify {e e' : Expr} (h : f.Folds e e') : e' = f.simplify e := by
  induction h with
  | int | str | var => rfl
  | binary _ _ h hl hr =>
    rw [simplify_eq_settle, prepared, ← hl, ← hr]
    exact settles_iff.mp h
  | unary _ h hx | index _ h hx =>
    rw [simplify_eq_settle, prepared, ← hx]
    exact settles_iff.mp h
  | call folded _ h hargs =>
    rw [simplify_eq_settle, prepared, simplifyAll_eq_map, ← List.map_congr_left hargs]
    exact settles_iff.mp h
  | ternary _ _ _ h hc hy hn =>
    rw [simplify_eq_settle, prepared, ← hc, ← hy, ← hn]
    exact settles_iff.mp h

theorem settle_size_le (e : Expr) : (f.settle e).size ≤ e.size := by
  fun_induction settle f e with
  | case1 e e' h ih => exact ih.trans (rule_of_reduce? h).size_le
  | case2 e h => exact le_rfl

theorem sizeAll_map_le {g : Expr → Expr} {args : List Expr} (h : ∀ a ∈ args, (g a).size ≤ a.size) :
    Expr.sizeAll (args.map g) ≤ Expr.sizeAll args := by
  induction args with
  | nil => exact le_rfl
  | cons a args ih =>
    obtain ⟨ha,hargs⟩ := List.forall_mem_cons.mp h
    exact Nat.add_le_add ha (ih hargs)

/-- Folding makes no expression larger. -/
theorem simplify_size_le (e : Expr) : (f.simplify e).size ≤ e.size := by
  induction e with
  | int | str | var => exact le_rfl
  | binary op l r hl hr =>
    have h := settle_size_le (f := f) (.binary op (f.simplify l) (f.simplify r))
    simp only [simplify, Expr.size_binary] at h ⊢
    omega
  | unary op x hx =>
    have h := settle_size_le (f := f) (.unary op (f.simplify x))
    simp only [simplify, Expr.size_unary] at h ⊢
    omega
  | index array x hx => exact Nat.succ_le_succ hx
  | call name args hargs =>
    rw [simplify, simplifyAll_eq_map]
    exact Nat.succ_le_succ (sizeAll_map_le hargs)
  | ternary c y n hc hy hn =>
    have h := settle_size_le (f := f) (.ternary (f.simplify c) (f.simplify y) (f.simplify n))
    simp only [simplify, Expr.size_ternary] at h ⊢
    omega

/-- Every rule makes an expression smaller or makes a shift of a product or quotient, to which no rule applies. So the
rules at a node end before they are as many as its nodes, folding ends in one result, and this is no larger. -/
theorem rewriting_ends (f : Folder) (e : Expr) :
    (∀ a b, f.Fires a b → b.size < a.size ∨
      b.size = a.size ∧ isScaling a = true ∧ IsShift b ∧ f.reduce? b = none) ∧
    (∃ n < e.size, f.after n e = some (f.settle e) ∧ f.after (n + 1) e = none) ∧
    (∃! e', f.Folds e e') ∧ f.Folds e (f.simplify e) ∧ (f.simplify e).size ≤ e.size :=
  ⟨fun _ _ h => h.size_lt_or_shift,exists_after_settle f e,⟨_,folds_simplify f e,fun _ h => h.eq_simplify⟩,
    folds_simplify f e,simplify_size_le e⟩

/-- At `4 * x` a rule fires, and what it leaves is as large. -/
theorem rewriting_ends_of_scaled :
    Fires ⟨.u8, fun _ => none⟩ (.binary .mul (.int 4) (.var "x")) (.binary .shl (.var "x") (.int 2)) ∧
      (Expr.binary .shl (.var "x") (.int 2)).size = (Expr.binary .mul (.int 4) (.var "x")).size ∧
      IsShift (.binary .shl (.var "x") (.int 2)) := by
  have hfires : Fires ⟨.u8, fun _ => none⟩ (.binary .mul (.int 4) (.var "x")) (.binary .shl (.var "x") (.int 2)) := by
    show reduce? _ _ = _
    decide
  rcases (rewriting_ends ⟨.u8, fun _ => none⟩ (.binary .mul (.int 4) (.var "x"))).1 _ _ hfires with hless | h
  · exact absurd hless (by decide)
  · exact ⟨hfires,h.1,h.2.2.1⟩

end Cartridge.Folder
