import Cartridge.Proofs.Fold.Compute

/-!
Expressions run in one domain. Results are wrapped into it, and calls are steps that change a state,
taken from left to right and recorded in the order they are made.
-/
namespace Cartridge

/-- What an expression or an argument of a call comes to. -/
inductive Value where
  | int (x : Int)
  | text (s : String)
  deriving DecidableEq, Repr

def Value.int? : Value → Option Int
  | .int x => some x
  | .text _ => none

/-- Names, elements and calls over some states. All of them hold or return values of the domain. -/
structure Host (d : Domain) (σ : Type) where
  var : σ → String → Int
  element : σ → String → Int → Int
  call : String → List Value → σ → Int × σ
  var_fits : ∀ s name, d.Fits (var s name)
  element_fits : ∀ s array i, d.Fits (element s array i)
  call_fits : ∀ name args s, d.Fits (call name args s).1

/-- A state and the calls made on the way to it. -/
structure Trace (σ : Type) where
  state : σ
  calls : List (String × List Value)
  deriving DecidableEq

namespace Host
variable {d : Domain} {σ : Type}

def number? (r : Option (Value × Trace σ)) : Option (Int × Trace σ) :=
  r.bind fun (v,t) => v.int?.map (·,t)

def perform (m : Host d σ) (name : String) (args : List Value) (t : Trace σ) : Value × Trace σ :=
  let (x,s) := m.call name args t.state
  (.int x,⟨s,t.calls ++ [(name,args)]⟩)

mutual

def run (m : Host d σ) : Expr → Trace σ → Option (Value × Trace σ)
  | .int v, t => some (.int v.toInt,t)
  | .str s, t => some (.text s,t)
  | .var name, t => some (.int (m.var t.state name),t)
  | .binary op l r, t =>
    (number? (run m l t)).bind fun (a,t) =>
      match op.decided? a with
      | some x => some (.int x,t)
      | none => (number? (run m r t)).bind fun (b,t) => (d.compute? op a b).map (.int ·,t)
  | .unary op e, t => (number? (run m e t)).map fun (a,t) => (.int (d.computeUnary op a),t)
  | .index array e, t => (number? (run m e t)).map fun (i,t) => (.int (m.element t.state array i),t)
  | .call name args, t => (runAll m args t).map fun (vs,t) => m.perform name vs t
  | .ternary c y n, t =>
    (number? (run m c t)).bind fun (b,t) => if b = 0 then run m n t else run m y t

def runAll (m : Host d σ) : List Expr → Trace σ → Option (List Value × Trace σ)
  | [], t => some ([],t)
  | e :: es, t => (run m e t).bind fun (v,t) => (runAll m es t).map fun (vs,t) => (v :: vs,t)

end

section equations
variable (m : Host d σ) (t : Trace σ)

@[simp] theorem run_int (v : Int32) : m.run (.int v) t = some (.int v.toInt,t) := rfl

@[simp] theorem run_str (s : String) : m.run (.str s) t = some (.text s,t) := rfl

@[simp] theorem run_var (name : String) :
    m.run (.var name) t = some (.int (m.var t.state name),t) := rfl

theorem run_binary (op : BinOp) (l r : Expr) :
    m.run (.binary op l r) t = (number? (m.run l t)).bind fun (a,t) =>
      match op.decided? a with
      | some x => some (.int x,t)
      | none => (number? (m.run r t)).bind fun (b,t) => (d.compute? op a b).map (.int ·,t) := rfl

theorem run_unary (op : UnOp) (e : Expr) : m.run (.unary op e) t =
    (number? (m.run e t)).map fun (a,t) => (.int (d.computeUnary op a),t) := rfl

theorem run_index (array : String) (e : Expr) : m.run (.index array e) t =
    (number? (m.run e t)).map fun (i,t) => (.int (m.element t.state array i),t) := rfl

theorem run_call (name : String) (args : List Expr) :
    m.run (.call name args) t = (m.runAll args t).map fun (vs,t) => m.perform name vs t := rfl

theorem run_ternary (c y n : Expr) : m.run (.ternary c y n) t =
    (number? (m.run c t)).bind fun (b,t) => if b = 0 then m.run n t else m.run y t := rfl

theorem runAll_cons (e : Expr) (es : List Expr) : m.runAll (e :: es) t =
    (m.run e t).bind fun (v,t) => (m.runAll es t).map fun (vs,t) => (v :: vs,t) := rfl

end equations

variable {m : Host d σ}

theorem number?_eq_some {r : Option (Value × Trace σ)} {a : Int} {t : Trace σ} :
    number? r = some (a,t) ↔ r = some (.int a,t) := by
  rcases r with - | ⟨v,u⟩
  · simp [number?]
  · cases v <;> simp [number?, Value.int?]

/-- A binary operation runs its left operand, then the right one unless the left one settles it. -/
theorem run_binary_iff {op : BinOp} {l r : Expr} {t : Trace σ} {res : Value × Trace σ} :
    m.run (.binary op l r) t = some res ↔ ∃ a t', m.run l t = some (.int a,t') ∧
      ((∃ x, op.decided? a = some x ∧ res = (.int x,t')) ∨
        op.decided? a = none ∧ ∃ b t'' x, m.run r t' = some (.int b,t'') ∧
          d.compute? op a b = some x ∧ res = (.int x,t'')) := by
  rw [run_binary, Option.bind_eq_some_iff]
  constructor
  · rintro ⟨⟨a,t'⟩,ha,h⟩
    refine ⟨a,t',number?_eq_some.mp ha,?_⟩
    cases hd : op.decided? a with
    | some x =>
      simp only [hd, Option.some.injEq] at h
      exact .inl ⟨x,rfl,h.symm⟩
    | none =>
      simp only [hd, Option.bind_eq_some_iff, Option.map_eq_some_iff] at h
      obtain ⟨⟨b,t''⟩,hb,x,hx,rfl⟩ := h
      exact .inr ⟨rfl,b,t'',x,number?_eq_some.mp hb,hx,rfl⟩
  · rintro ⟨a,t',ha,⟨x,hx,rfl⟩ | ⟨hd,b,t'',x,hb,hx,rfl⟩⟩
    · exact ⟨(a,t'),number?_eq_some.mpr ha,by simp [hx]⟩
    · exact ⟨(a,t'),number?_eq_some.mpr ha,by simp [hd, hb, number?, Value.int?, hx]⟩

theorem run_unary_iff {op : UnOp} {e : Expr} {t : Trace σ} {res : Value × Trace σ} :
    m.run (.unary op e) t = some res ↔
      ∃ a t', m.run e t = some (.int a,t') ∧ (.int (d.computeUnary op a),t') = res := by
  simp only [run_unary, Option.map_eq_some_iff, Prod.exists, number?_eq_some]

theorem run_index_iff {array : String} {e : Expr} {t : Trace σ} {res : Value × Trace σ} :
    m.run (.index array e) t = some res ↔
      ∃ i t', m.run e t = some (.int i,t') ∧ (.int (m.element t'.state array i),t') = res := by
  simp only [run_index, Option.map_eq_some_iff, Prod.exists, number?_eq_some]

theorem run_ternary_iff {c y n : Expr} {t : Trace σ} {res : Value × Trace σ} :
    m.run (.ternary c y n) t = some res ↔
      ∃ b t', m.run c t = some (.int b,t') ∧ (if b = 0 then m.run n t' else m.run y t') = some res := by
  simp only [run_ternary, Option.bind_eq_some_iff, Prod.exists, number?_eq_some]

theorem run_call_iff {name : String} {args : List Expr} {t : Trace σ} {res : Value × Trace σ} :
    m.run (.call name args) t = some res ↔
      ∃ vs t', m.runAll args t = some (vs,t') ∧ m.perform name vs t' = res := by
  simp only [run_call, Option.map_eq_some_iff, Prod.exists]

/-- Running without calls changes nothing. -/
theorem run_isPure {e : Expr} (h : e.isPure = true) {t t' : Trace σ} {v : Value}
    (hr : m.run e t = some (v,t')) : t' = t := by
  induction e generalizing t t' v with
  | int x =>
    simp only [run_int, Option.some.injEq, Prod.mk.injEq] at hr
    exact hr.2.symm
  | str s =>
    simp only [run_str, Option.some.injEq, Prod.mk.injEq] at hr
    exact hr.2.symm
  | var name =>
    simp only [run_var, Option.some.injEq, Prod.mk.injEq] at hr
    exact hr.2.symm
  | binary op l r ihl ihr =>
    obtain ⟨hl,hr'⟩ : l.isPure = true ∧ r.isPure = true := by simpa [Expr.isPure] using h
    obtain ⟨a,t₁,h₁,⟨x,-,he⟩ | ⟨-,b,t₂,x,h₂,-,he⟩⟩ := run_binary_iff.mp hr
    · cases he
      exact ihl hl h₁
    · cases he
      exact (ihr hr' h₂).trans (ihl hl h₁)
  | unary op e ih =>
    obtain ⟨a,t₁,h₁,he⟩ := run_unary_iff.mp hr
    cases he
    exact ih h h₁
  | index array e ih =>
    obtain ⟨i,t₁,h₁,he⟩ := run_index_iff.mp hr
    cases he
    exact ih h h₁
  | call name args => cases h
  | ternary c y n ihc ihy ihn =>
    obtain ⟨⟨hc,hy⟩,hn⟩ : (c.isPure = true ∧ y.isPure = true) ∧ n.isPure = true := by
      simpa [Expr.isPure] using h
    obtain ⟨b,t₁,h₁,h₂⟩ := run_ternary_iff.mp hr
    have ht := ihc hc h₁
    split at h₂
    · exact (ihn hn h₂).trans ht
    · exact (ihy hy h₂).trans ht

/-- Wherever the first expression has a result, the second has the same: the same value, the same
state and the same calls. -/
def Refines (m : Host d σ) (e e' : Expr) : Prop :=
  ∀ t res, m.run e t = some res → m.run e' t = some res

theorem Refines.refl (e : Expr) : m.Refines e e := fun _ _ h => h

theorem Refines.trans {e e' e'' : Expr} (h : m.Refines e e') (h' : m.Refines e' e'') :
    m.Refines e e'' := fun t res hr => h' t res (h t res hr)

theorem Refines.binary (op : BinOp) {l l' r r' : Expr} (hl : m.Refines l l') (hr : m.Refines r r') :
    m.Refines (.binary op l r) (.binary op l' r') := by
  intro t res h
  obtain ⟨a,t₁,h₁,h⟩ := run_binary_iff.mp h
  refine run_binary_iff.mpr ⟨a,t₁,hl _ _ h₁,h.imp_right ?_⟩
  rintro ⟨hd,b,t₂,x,h₂,hx⟩
  exact ⟨hd,b,t₂,x,hr _ _ h₂,hx⟩

theorem Refines.unary (op : UnOp) {e e' : Expr} (he : m.Refines e e') :
    m.Refines (.unary op e) (.unary op e') := by
  intro t res h
  obtain ⟨a,t₁,h₁,h⟩ := run_unary_iff.mp h
  exact run_unary_iff.mpr ⟨a,t₁,he _ _ h₁,h⟩

theorem Refines.index (array : String) {e e' : Expr} (he : m.Refines e e') :
    m.Refines (.index array e) (.index array e') := by
  intro t res h
  obtain ⟨i,t₁,h₁,h⟩ := run_index_iff.mp h
  exact run_index_iff.mpr ⟨i,t₁,he _ _ h₁,h⟩

theorem Refines.ternary {c c' y y' n n' : Expr} (hc : m.Refines c c') (hy : m.Refines y y')
    (hn : m.Refines n n') : m.Refines (.ternary c y n) (.ternary c' y' n') := by
  intro t res h
  obtain ⟨b,t₁,h₁,h⟩ := run_ternary_iff.mp h
  refine run_ternary_iff.mpr ⟨b,t₁,hc _ _ h₁,?_⟩
  split at h
  · rename_i hb
    rw [if_pos hb]
    exact hn _ _ h
  · rename_i hb
    rw [if_neg hb]
    exact hy _ _ h

theorem runAll_map {g : Expr → Expr} {args : List Expr} (hg : ∀ a ∈ args, m.Refines a (g a))
    {t : Trace σ} {res : List Value × Trace σ} (h : m.runAll args t = some res) :
    m.runAll (args.map g) t = some res := by
  induction args generalizing t res with
  | nil => exact h
  | cons a args ih =>
    simp only [runAll_cons, List.map_cons, Option.bind_eq_some_iff, Option.map_eq_some_iff] at h ⊢
    obtain ⟨⟨v,t₁⟩,h₁,⟨vs,t₂⟩,h₂,rfl⟩ := h
    exact ⟨(v,t₁),hg a (by simp) _ _ h₁,(vs,t₂),ih (fun b hb => hg b (by simp [hb])) h₂,rfl⟩

theorem Refines.call (name : String) {g : Expr → Expr} {args : List Expr}
    (hg : ∀ a ∈ args, m.Refines a (g a)) : m.Refines (.call name args) (.call name (args.map g)) := by
  intro t res h
  obtain ⟨vs,t',hr,he⟩ := run_call_iff.mp h
  exact run_call_iff.mpr ⟨vs,t',runAll_map hg hr,he⟩

/-- An operator whose results are wrapped runs both operands. -/
theorem run_both {op : BinOp} (hop : op.isWrapped = true) {l r : Expr} {t : Trace σ}
    {res : Value × Trace σ} (h : m.run (.binary op l r) t = some res) :
    ∃ a t' b t'' x, m.run l t = some (.int a,t') ∧ m.run r t' = some (.int b,t'') ∧
      d.compute? op a b = some x ∧ res = (.int x,t'') := by
  obtain ⟨a,t₁,h₁,⟨x,hx,-⟩ | ⟨-,b,t₂,x,h₂,hx,he⟩⟩ := run_binary_iff.mp h
  · cases op <;> cases hop <;> cases hx
  · exact ⟨a,t₁,b,t₂,x,h₁,h₂,hx,he⟩

end Host

end Cartridge
