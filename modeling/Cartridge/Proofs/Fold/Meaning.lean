import Mathlib.Tactic.Common
import Cartridge.Proofs.Fold.Normal
import Cartridge.Proofs.Fold.Run

/-!
Folding keeps what an expression does. Each rule is checked against runs in the folder's domain; the
passes below the root and the settling at the root carry this over to whole expressions.
-/
namespace Cartridge

namespace Folder
variable {f : Folder} {σ : Type} {m : Host f.domain σ}

/-- Literals lie in the domain, and names are undeclared or declared in it. -/
def Suits (f : Folder) : Expr → Prop
  | .int v => f.domain.Fits v.toInt
  | .var name | .index name _ => f.declared name = none ∨ f.declared name = some f.domain
  | _ => True

/-- What is negated is not folded to a negation. -/
def KeepsNot (f : Folder) : Expr → Prop
  | .unary .not e => ∀ x, f.simplify e ≠ .unary .not x
  | _ => True

/-- Numbers that come out of a run are values of the domain. -/
theorem fits_run {e : Expr} (hs : e.Every f.Suits) {t t' : Trace σ} {a : Int}
    (h : m.run e t = some (.int a,t')) : f.domain.Fits a := by
  induction e generalizing t t' a with
  | int v =>
    cases h
    exact hs
  | str s => cases h
  | var name =>
    cases h
    exact m.var_fits _ _
  | binary op l r ihl ihr =>
    obtain ⟨b,t₁,hl,⟨x,hx,he⟩ | ⟨-,c,t₂,x,-,hx,he⟩⟩ := Host.run_binary_iff.mp h
    · cases he
      exact Domain.fits_decided? hx
    · cases he
      exact Domain.fits_compute? (ihl hs.2.1 hl) hx
  | unary op e ih =>
    obtain ⟨b,t₁,-,he⟩ := Host.run_unary_iff.mp h
    cases he
    exact Domain.fits_computeUnary _ op b
  | index array e ih =>
    obtain ⟨i,t₁,-,he⟩ := Host.run_index_iff.mp h
    cases he
    exact m.element_fits _ _ _
  | call name args ih =>
    obtain ⟨vs,t₁,-,he⟩ := Host.run_call_iff.mp h
    cases he
    exact m.call_fits _ _ _
  | ternary c y n ihc ihy ihn =>
    obtain ⟨b,t₁,-,h⟩ := Host.run_ternary_iff.mp h
    split at h
    · exact ihn hs.2.2.2 h
    · exact ihy hs.2.2.1 h

/-- An operand taken for unsigned has no negative value. -/
theorem nonneg_of_isUnsigned {e : Expr} (hu : f.isUnsigned e = true) (hs : e.Every f.Suits)
    {t t' : Trace σ} {a : Int} (h : m.run e t = some (.int a,t')) : 0 ≤ a := by
  have hf := fits_run hs h
  have hd (hu : f.domain.isSigned = false) : 0 ≤ a := by
    obtain ⟨hl,-⟩ := hf
    cases hfd : f.domain <;> simp [hfd, Domain.isSigned, Domain.least] at hu hl
    · exact hl
    · exact hl
  have hn (name : String) (hn : f.declared name = none ∨ f.declared name = some f.domain)
      (hu : (!((f.declared name).getD f.domain).isSigned) = true) : 0 ≤ a := by
    apply hd
    rcases hn with hn | hn <;> simpa [hn] using hu
  cases e with
  | int v =>
    cases h
    simpa [isUnsigned, Int32.le_iff_toInt_le] using hu
  | var name => exact hn name hs hu
  | index array i => exact hn array hs.1 hu
  | _ => exact hd (by simpa [isUnsigned] using hu)

section operands
variable {op : BinOp} (hop : op.isWrapped = true)
include hop

/-- An operation with a literal that gives its left operand back. -/
private theorem refines_left {l : Expr} {v : Int32} (hs : l.Every f.Suits)
    (hx : ∀ a x, f.domain.Fits a → f.domain.compute? op a v.toInt = some x → x = a) :
    m.Refines (.binary op l (.int v)) l := by
  intro t res h
  obtain ⟨a,t₁,b,t₂,x,hl,hv,ha,rfl⟩ := Host.run_both hop h
  cases hv
  rw [hx a x (fits_run hs hl) ha]
  exact hl

/-- An operation with a literal that gives its right operand back. -/
private theorem refines_right {r : Expr} {v : Int32} (hs : r.Every f.Suits)
    (hx : ∀ b x, f.domain.Fits b → f.domain.compute? op v.toInt b = some x → x = b) :
    m.Refines (.binary op (.int v) r) r := by
  intro t res h
  obtain ⟨a,t₁,b,t₂,x,hv,hr,ha,rfl⟩ := Host.run_both hop h
  cases hv
  rw [hx b x (fits_run hs hr) ha]
  exact hr

/-- An operation with zero that is zero, the other operand having no effect. -/
private theorem refines_absorbed {l r : Expr} (hl : l.isPure = true) (hr : r.isPure = true)
    (hx : ∀ t a b t' x, m.run l t = some (.int a,t) → m.run r t = some (.int b,t') →
      f.domain.compute? op a b = some x → x = 0) : m.Refines (.binary op l r) (.int 0) := by
  intro t res h
  obtain ⟨a,t₁,b,t₂,x,ha,hb,hab,rfl⟩ := Host.run_both hop h
  obtain rfl := Host.run_isPure hl ha
  obtain rfl := Host.run_isPure hr hb
  rw [hx _ a b _ x ha hb hab]
  rfl

/-- An operation of a name on itself. -/
private theorem refines_self {name : String} {e : Expr}
    (hx : ∀ t x, f.domain.compute? op (m.var t.state name) (m.var t.state name) = some x →
      m.run e t = some (.int x,t)) : m.Refines (.binary op (.var name) (.var name)) e := by
  intro t res h
  obtain ⟨a,t₁,b,t₂,x,ha,hb,hab,rfl⟩ := Host.run_both hop h
  cases ha
  cases hb
  exact hx t x hab

/-- An operation with a literal that another operation with another literal does as well. -/
private theorem refines_scaled {op' : BinOp} (hop' : ∀ a, op'.decided? a = none) {l : Expr} {v w : Int32}
    (hu : f.isUnsigned l = true) (hs : l.Every f.Suits)
    (hx : ∀ a x, f.domain.Fits a → 0 ≤ a → f.domain.compute? op a v.toInt = some x →
      f.domain.compute? op' a w.toInt = some x) :
    m.Refines (.binary op l (.int v)) (.binary op' l (.int w)) := by
  intro t res h
  obtain ⟨a,t₁,b,t₂,x,hl,hv,ha,rfl⟩ := Host.run_both hop h
  cases hv
  have ha' := hx a x (fits_run hs hl) (nonneg_of_isUnsigned hu hs hl) ha
  exact Host.run_binary_iff.mpr ⟨a,t₁,hl,.inr ⟨hop' a,w.toInt,t₁,x,rfl,ha',rfl⟩⟩

end operands

/-- A product with a literal on its left does what it does with the literal on its right. -/
private theorem refines_commuted {r : Expr} {v : Int32} :
    m.Refines (.binary .mul (.int v) r) (.binary .mul r (.int v)) := by
  intro t res h
  obtain ⟨a,t₁,b,t₂,x,hv,hr,ha,rfl⟩ := Host.run_both rfl h
  cases hv
  refine Host.run_binary_iff.mpr ⟨b,t₂,hr,.inr ⟨rfl,v.toInt,t₂,x,rfl,?_,rfl⟩⟩
  simpa [Domain.compute?, BinOp.value?, mul_comm] using ha

/-- Each rule keeps what an expression does, but for a negation of a negation. -/
theorem Rule.refines {e e' : Expr} (h : Rule f e e') (hs : e.Every f.Suits)
    (hn : ∀ x, e ≠ .unary .not (.unary .not x)) : m.Refines e e' := by
  intro t res hr
  cases h with
  | literals h =>
    have he := evaluate?_eq_some (fun _ => hs.2.1) h
    obtain ⟨a,t₁,ha,⟨x,hx,rfl⟩ | ⟨-,b,t₂,x,hb,hx,rfl⟩⟩ := Host.run_binary_iff.mp hr
    · cases ha
      cases he.symm.trans (compute?_of_decided? _ hx)
      rfl
    · cases ha
      cases hb
      cases he.symm.trans hx
      rfl
  | @zeroRight op h l =>
    have hw : op.isWrapped = true := by rcases h with rfl | rfl | rfl | rfl <;> rfl
    exact refines_left (v := 0) hw hs.2.1 (fun a x ha => compute?_zero_right h ha) t res hr
  | @zeroLeft op h r =>
    have hw : op.isWrapped = true := by rcases h with rfl | rfl | rfl <;> rfl
    exact refines_right (v := 0) hw hs.2.2 (fun b x hb => compute?_zero_left h hb) t res hr
  | @oneRight op h l =>
    have hw : op.isWrapped = true := by rcases h with rfl | rfl <;> rfl
    exact refines_left (v := 1) hw hs.2.1 (fun a x ha => compute?_one_right h ha) t res hr
  | oneLeft r =>
    exact refines_left (v := 1) rfl hs.2.2 (fun a x ha => compute?_one_right (.inl rfl) ha) t res
      (refines_commuted t res hr)
  | @absorbRight op h l hl =>
    have hw : op.isWrapped = true := by rcases h with rfl | rfl <;> rfl
    refine refines_absorbed hw hl rfl ?_ t res hr
    rintro t a b t' x - hb hx
    cases hb
    exact compute?_absorb h (.inr rfl) hx
  | @absorbLeft op h r hp =>
    have hw : op.isWrapped = true := by rcases h with rfl | rfl <;> rfl
    refine refines_absorbed hw rfl hp ?_ t res hr
    rintro t a b t' x ha - hx
    cases ha
    exact compute?_absorb h (.inl rfl) hx
  | @cancel op h name =>
    have hw : op.isWrapped = true := by rcases h with rfl | rfl <;> rfl
    refine refines_self hw ?_ t res hr
    intro t x hx
    rw [compute?_cancel h hx]
    rfl
  | @keep op h name =>
    have hw : op.isWrapped = true := by rcases h with rfl | rfl <;> rfl
    refine refines_self hw ?_ t res hr
    intro t x hx
    rw [compute?_keep h (m.var_fits _ _) hx]
    rfl
  | shiftLeft hk hu =>
    exact refines_scaled rfl (fun _ => rfl) hu hs.2.1
      (fun a x _ _ => compute?_mul_power hk hs.2.2 a x) t res hr
  | shiftRight hk hu =>
    exact refines_scaled rfl (fun _ => rfl) hu hs.2.2
      (fun a x _ _ => compute?_mul_power hk hs.2.1 a x) t res (refines_commuted t res hr)
  | quotient hk hu =>
    exact refines_scaled rfl (fun _ => rfl) hu hs.2.1
      (compute?_div_power hk hs.2.2) t res hr
  | twice op e =>
    obtain ⟨a,t₁,h,rfl⟩ := Host.run_unary_iff.mp hr
    obtain ⟨b,t₂,h,he⟩ := Host.run_unary_iff.mp h
    cases he
    rw [computeUnary_twice ?_ (fits_run hs.2.2 h)]
    · exact h
    · rintro rfl
      exact hn _ rfl
  | negLiteral a =>
    cases hr
    rw [Host.run_int, toInt_wrap]
    rfl
  | notLiteral a =>
    cases hr
    simp [Domain.computeUnary, UnOp.value, truthValue, toInt_zero_iff]
  | bitNotLiteral a =>
    cases hr
    rw [Host.run_int, toInt_wrap, wrap_lnot]
    rfl
  | chosen hc y n =>
    obtain ⟨b,t₁,h,h'⟩ := Host.run_ternary_iff.mp hr
    cases h
    rwa [if_neg ((toInt_zero_iff _).not.mpr hc)] at h'
  | refused y n =>
    obtain ⟨b,t₁,h,h'⟩ := Host.run_ternary_iff.mp hr
    cases h
    exact h'

/-- Rules keep literals in the domain and bring in no names. -/
theorem Rule.suits {e e' : Expr} (h : Rule f e e') (hs : e.Every f.Suits) : e'.Every f.Suits := by
  have hw (x : Int) : f.domain.Fits (f.wrap x).toInt := by
    rw [toInt_wrap]
    exact f.domain.fits_wrap x
  have ht (b : Bool) : f.domain.Fits (truth b).toInt := by
    rw [toInt_truth]
    split
    · exact f.domain.fits_one
    · exact f.domain.fits_zero
  have hk {k : Nat} (hk : 1 ≤ k ∧ k ≤ 15) : f.domain.Fits (Int32.ofNat k).toInt := by
    rw [(toInt_power hk).2]
    exact ⟨f.domain.fits_zero.1.trans (by omega),by cases f.domain <;> simp [Domain.greatest] <;> omega⟩
  cases h with
  | literals h => exact Domain.fits_compute? hs.2.1 (evaluate?_eq_some (fun _ => hs.2.1) h)
  | zeroRight _ l => exact hs.2.1
  | oneRight _ l => exact hs.2.1
  | zeroLeft _ r => exact hs.2.2
  | oneLeft r => exact hs.2.2
  | absorbRight | absorbLeft | cancel => exact f.domain.fits_zero
  | keep _ name => exact hs.2.1
  | shiftLeft h hu => exact ⟨trivial,hs.2.1,hk h⟩
  | shiftRight h hu => exact ⟨trivial,hs.2.2,hk h⟩
  | quotient h hu => exact ⟨trivial,hs.2.1,hk h⟩
  | twice op e => exact hs.2.2
  | negLiteral a => exact hw _
  | notLiteral a => exact ht _
  | bitNotLiteral a => exact hw _
  | chosen hc y n => exact hs.2.2.1
  | refused y n => exact hs.2.2.2

theorem not_doubled_of_normal {e : Expr} (h : f.Normal e) (x : Expr) : e ≠ .unary .not (.unary .not x) := by
  rintro rfl
  cases h.root

/-- No rule brings up a negation of a negation. -/
theorem Rule.not_doubled {e e' : Expr} (h : Rule f e e') (hn : f.NormalBelow e) (x : Expr) :
    e' ≠ .unary .not (.unary .not x) := by
  cases h with
  | zeroRight _ l => exact not_doubled_of_normal hn.1 x
  | oneRight _ l => exact not_doubled_of_normal hn.1 x
  | zeroLeft _ r => exact not_doubled_of_normal hn.2 x
  | oneLeft r => exact not_doubled_of_normal hn.2 x
  | twice op e => exact not_doubled_of_normal hn.2 x
  | chosen hc y n => exact not_doubled_of_normal hn.2.1 x
  | refused y n => exact not_doubled_of_normal hn.2.2 x
  | _ => exact nofun

/-- Settling keeps what an expression with normal operands does. -/
theorem settle_refines {e : Expr} (hn : f.NormalBelow e) (hs : e.Every f.Suits)
    (hd : ∀ x, e ≠ .unary .not (.unary .not x)) :
    m.Refines e (f.settle e) ∧ (f.settle e).Every f.Suits := by
  fun_induction settle f e with
  | case1 e e' h ih =>
    have hr := rule_of_reduce? h
    obtain ⟨h₁,h₂⟩ := ih (hr.normalBelow hn) (hr.suits hs) (hr.not_doubled hn)
    exact ⟨(hr.refines hs hd).trans h₁,h₂⟩
  | case2 e h => exact ⟨.refl e,hs⟩

/-- The pass below the root and the settling at the root together. -/
theorem simplify_refines {e : Expr} (hs : e.Every f.Suits) (hk : e.Every f.KeepsNot) :
    m.Refines e (f.simplify e) ∧ (f.simplify e).Every f.Suits := by
  induction e with
  | int v => exact ⟨.refl _,hs⟩
  | str s => exact ⟨.refl _,hs⟩
  | var name => exact ⟨.refl _,hs⟩
  | binary op l r ihl ihr =>
    obtain ⟨hl,hsl⟩ := ihl hs.2.1 hk.2.1
    obtain ⟨hr,hsr⟩ := ihr hs.2.2 hk.2.2
    obtain ⟨h,hs'⟩ := settle_refines (m := m) (e := .binary op (f.simplify l) (f.simplify r))
      ⟨simplify_normal l,simplify_normal r⟩ ⟨trivial,hsl,hsr⟩ (by simp)
    exact ⟨(hl.binary op hr).trans h,hs'⟩
  | unary op e ih =>
    obtain ⟨he,hse⟩ := ih hs.2 hk.2
    obtain ⟨h,hs'⟩ := settle_refines (m := m) (e := .unary op (f.simplify e)) (simplify_normal e)
      ⟨trivial,hse⟩ (by
        intro x hx
        injection hx with hop hx
        subst hop
        exact hk.1 x hx)
    exact ⟨(he.unary op).trans h,hs'⟩
  | index array e ih =>
    obtain ⟨he,hse⟩ := ih hs.2 hk.2
    exact ⟨he.index array,hs.1,hse⟩
  | call name args ih =>
    have hs' := (Expr.everyOf_iff args).mp hs.2
    have hk' := (Expr.everyOf_iff args).mp hk.2
    rw [simplify, simplifyAll_eq_map]
    refine ⟨.call name fun a ha => (ih a ha (hs' a ha) (hk' a ha)).1,trivial,?_⟩
    refine (Expr.everyOf_iff _).mpr fun b hb => ?_
    obtain ⟨a,ha,rfl⟩ := List.mem_map.mp hb
    exact (ih a ha (hs' a ha) (hk' a ha)).2
  | ternary c y n ihc ihy ihn =>
    obtain ⟨hc,hsc⟩ := ihc hs.2.1 hk.2.1
    obtain ⟨hy,hsy⟩ := ihy hs.2.2.1 hk.2.2.1
    obtain ⟨hn,hsn⟩ := ihn hs.2.2.2 hk.2.2.2
    obtain ⟨h,hs'⟩ := settle_refines (m := m)
      (e := .ternary (f.simplify c) (f.simplify y) (f.simplify n))
      ⟨simplify_normal c,simplify_normal y,simplify_normal n⟩ ⟨trivial,hsc,hsy,hsn⟩ (by simp)
    exact ⟨(hc.ternary hy hn).trans h,hs'⟩

/-- Whenever an expression has a result in the folder's domain, its folded form has the same one,
leaves the same state and makes the same calls in the same order. -/
theorem folding_keeps_runs (f : Folder) {σ : Type} (m : Host f.domain σ) (e : Expr)
    (hs : e.Every f.Suits) (hk : e.Every f.KeepsNot) (t t' : Trace σ) (v : Value)
    (h : m.run e t = some (v,t')) : m.run (f.simplify e) t = some (v,t') :=
  (simplify_refines hs hk).1 t (v,t') h

private theorem fits_byte (s : Fin 256) : Domain.u8.Fits s.val :=
  ⟨Int.natCast_nonneg s.val,Int.ofNat_le.mpr (Nat.le_of_lt_succ s.isLt)⟩

def callCounter : Host .u8 (Fin 256) where
  var s _ := s.val
  element s _ _ := s.val
  call _ _ s := (s.val,s + 1)
  var_fits s _ := fits_byte s
  element_fits s _ _ := fits_byte s
  call_fits _ _ s := fits_byte s

/-- `8 * next("a") + -(-x) - !(y - y)` makes one call and ends with the same number after folding. -/
theorem folding_keeps_runs_counting :
    let e : Expr := .binary .sub
      (.binary .add (.binary .mul (.int 8) (.call "next" [.str "a"])) (.unary .neg (.unary .neg (.var "x"))))
      (.unary .not (.binary .sub (.var "y") (.var "y")))
    let f : Folder := { domain := .u8 }
    e.Every f.Suits ∧ e.Every f.KeepsNot ∧
      callCounter.run e ⟨40,[]⟩ = some (.int 104,⟨41,[("next",[.text "a"])]⟩) ∧
      callCounter.run (f.simplify e) ⟨40,[]⟩ = some (.int 104,⟨41,[("next",[.text "a"])]⟩) := by
  intro e f
  have hs : e.Every f.Suits := by simp [e, f, Expr.Every, Expr.EveryOf, Suits, Domain.Fits, Domain.least,
    Domain.greatest]
  have hk : e.Every f.KeepsNot := by
    have hr : f.reduce? (.binary .sub (.var "y") (.var "y")) = some (.int 0) := rfl
    have h : f.simplify (.binary .sub (.var "y") (.var "y")) = .int 0 :=
      (settle_of_some hr).trans (settle_of_none rfl)
    simp [e, Expr.Every, Expr.EveryOf, KeepsNot, h]
  have hr : callCounter.run e ⟨40,[]⟩ = some (.int 104,⟨41,[("next",[.text "a"])]⟩) := by decide
  exact ⟨hs,hk,hr,folding_keeps_runs f callCounter e hs hk _ _ _ hr⟩

end Folder

end Cartridge
