import Cartridge.Proofs.Fold.Quotient

/-!
Folding and conditions. Of some operands only the truth is used, so a rule that changes a number may
still do no harm there. Where the rules that may change a number do none, folding keeps what an
expression is used for.
-/
namespace Cartridge

/-- What an expression is used for: its number, or only whether it is zero. -/
inductive Use where
  | number
  | truth
  deriving DecidableEq, Repr

namespace Use
variable {u : Use} {a b c : Int}

def Agree (u : Use) (a b : Int) : Prop :=
  match u with
  | .number => a = b
  | .truth => a = 0 ↔ b = 0

theorem Agree.of_eq (h : a = b) : u.Agree a b := by
  subst h
  cases u with
  | number => rfl
  | truth => exact Iff.rfl

theorem Agree.trans (h : u.Agree a b) (h' : u.Agree b c) : u.Agree a c := by
  cases u with
  | number => exact Eq.trans h h'
  | truth => exact Iff.trans h h'

end Use

namespace BinOp
variable {op : BinOp} {a a' b b' : Int}

def operandUse : BinOp → Use
  | .and | .or => .truth
  | _ => .number

theorem decided?_congr (h : op.operandUse.Agree a a') : op.decided? a' = op.decided? a := by
  cases op with
  | and | or => simp only [decided?, show a' = 0 ↔ a = 0 from h.symm]
  | _ => rfl

theorem value?_congr (ha : op.operandUse.Agree a a') (hb : op.operandUse.Agree b b') :
    op.value? a' b' = op.value? a b := by
  cases op with
  | and | or =>
    have ha : a = 0 ↔ a' = 0 := ha
    have hb : b = 0 ↔ b' = 0 := hb
    simp only [value?, truthValue, Ne, ha, hb]
  | _ => rw [show a = a' from ha, show b = b' from hb]

theorem combine?_some (op : BinOp) (a b : Int) : op.combine? (some a) (some b) = op.value? a b := by
  cases op with
  | and =>
    by_cases ha : a = 0 <;> simp [combine?, decided?, value?, truthValue, ha]
  | or =>
    by_cases ha : a = 0 <;> simp [combine?, decided?, value?, truthValue, ha]
  | _ => rfl

end BinOp

namespace UnOp

def operandUse : UnOp → Use
  | .not => .truth
  | _ => .number

theorem value_congr {op : UnOp} {a a' : Int} (h : op.operandUse.Agree a a') :
    op.value a' = op.value a := by
  cases op with
  | not => simp only [value, truthValue, show a' = 0 ↔ a = 0 from h.symm]
  | neg | bitNot => rw [show a = a' from h]

end UnOp

/-- Declared variables and arrays hold values of their domains. -/
structure Valuation.Respects (ρ : Valuation) (declared : String → Option Domain) : Prop where
  var : ∀ name d, declared name = some d → d.Fits (ρ.var name)
  element : ∀ array d, declared array = some d → ∀ i, d.Fits (ρ.element array i)

namespace Folder
variable {f : Folder} {ρ : Valuation} {u : Use}

def isDeclared (f : Folder) : Expr → Bool
  | .int _ => true
  | .var name | .index name _ => (f.declared name).isSome
  | _ => false

/-- The number written for an operation on two literals is as good as the exact one. -/
def LiteralsKept (f : Folder) (u : Use) (op : BinOp) (l r : Expr) : Prop :=
  ∀ a b v x, l = .int a → r = .int b → f.evaluate? op a b = some v →
    op.value? a.toInt b.toInt = some x → u.Agree x v.toInt

/-- The operand of a quotient that becomes a shift is not negative, or a declaration tells. -/
def QuotientKept (f : Folder) (ρ : Valuation) (op : BinOp) (l r : Expr) : Prop :=
  ∀ k a, op = .div → r = .int (.ofNat (Nat.pow 2 k)) → f.isUnsigned l = true →
    f.isDeclared l = false → l.value? ρ = some a → 0 ≤ a

def LiteralKept (f : Folder) (u : Use) (op : UnOp) (e : Expr) : Prop :=
  ∀ a v, e = .int a → f.unary? op e = some (.int v) → u.Agree (op.value a.toInt) v.toInt

/-- Where its number is used, a doubled negation is one of zero or one. -/
def NegationKept (ρ : Valuation) (u : Use) (op : UnOp) (e : Expr) : Prop :=
  ∀ x a, u = .number → op = .not → e = .unary .not x → x.value? ρ = some a → a = 0 ∨ a = 1

mutual

/-- The rules that may change a number do no harm to what an expression is used for. Only those parts
count that are evaluated. -/
def Kept (f : Folder) (ρ : Valuation) : Use → Expr → Prop
  | _, .int _ | _, .str _ | _, .var _ => True
  | u, .binary op l r =>
    Kept f ρ op.operandUse l ∧
      (∀ a, l.value? ρ = some a → op.decided? a = none → Kept f ρ op.operandUse r) ∧
      f.LiteralsKept u op (f.simplify l) (f.simplify r) ∧
      f.QuotientKept ρ op (f.simplify l) (f.simplify r)
  | u, .unary op e =>
    Kept f ρ op.operandUse e ∧ f.LiteralKept u op (f.simplify e) ∧ NegationKept ρ u op (f.simplify e)
  | _, .index _ e => Kept f ρ .number e
  | _, .call _ args => KeptAll f ρ args
  | u, .ternary c y n =>
    Kept f ρ .truth c ∧
      ∀ b, c.value? ρ = some b → (b = 0 → Kept f ρ u n) ∧ (b ≠ 0 → Kept f ρ u y)

def KeptAll (f : Folder) (ρ : Valuation) : List Expr → Prop
  | [] => True
  | e :: es => Kept f ρ .number e ∧ KeptAll f ρ es

end

section trivially

variable {op : BinOp} {l r e : Expr}

theorem literalsKept_of_ne (hl : ∀ a, l ≠ .int a) : f.LiteralsKept u op l r :=
  fun a _ _ _ h => (hl a h).elim

theorem quotientKept_of_ne (hop : op ≠ .div) : f.QuotientKept ρ op l r :=
  fun _ _ h => (hop h).elim

theorem literalKept_of_ne {op : UnOp} (he : ∀ a, e ≠ .int a) : f.LiteralKept u op e :=
  fun a _ h => (he a h).elim

theorem negationKept_truth (op : UnOp) (e : Expr) : NegationKept ρ .truth op e := by
  intro x a hu
  cases hu

end trivially

/-- The second expression has a value that is as good as a number. -/
def Yields (ρ : Valuation) (u : Use) (x : Int) (e : Expr) : Prop :=
  ∃ y, e.value? ρ = some y ∧ u.Agree x y

/-- What an operand taken for unsigned holds is not negative where a declaration tells. -/
theorem nonneg_of_isDeclared (hρ : ρ.Respects f.declared) {e : Expr} (hd : f.isDeclared e = true)
    (hu : f.isUnsigned e = true) {a : Int} (ha : e.value? ρ = some a) : 0 ≤ a := by
  cases e with
  | int v =>
    cases ha
    simpa [isUnsigned, Int32.le_iff_toInt_le] using hu
  | var name =>
    obtain ⟨d,hname⟩ := Option.isSome_iff_exists.mp hd
    cases ha
    exact nonneg_of_fits (by simpa [isUnsigned, hname] using hu) (hρ.var name d hname)
  | index array i =>
    obtain ⟨d,hname⟩ := Option.isSome_iff_exists.mp hd
    obtain ⟨j,-,rfl⟩ := Option.map_eq_some_iff.mp ha
    exact nonneg_of_fits (by simpa [isUnsigned, hname] using hu) (hρ.element array d hname j)
  | _ => cases hd

/-- At a node whose operands are folded, only a rule that may change a number is left to look at. -/
private theorem yields_simplify {e : Expr} {x : Int} (hx : Yields ρ u x (f.prepared e))
    (hlossy : ∀ y e', (f.prepared e).value? ρ = some y → f.Lossy (f.prepared e) e' →
      Yields ρ u y e') : Yields ρ u x (f.simplify e) := by
  obtain ⟨y,hy,hxy⟩ := hx
  rcases f.simplify_cases e with heq | hrule
  · rw [heq]
    exact ⟨y,hy,hxy⟩
  · rcases hrule.exact_or_lossy with hexact | hl
    · exact ⟨y,hexact ρ y hy,hxy⟩
    · obtain ⟨z,hz,hyz⟩ := hlossy y _ hy hl
      exact ⟨z,hz,hxy.trans hyz⟩

/-- Operands that are as good as before give the same result. -/
theorem value?_binary_congr {op : BinOp} {l l' r r' : Expr} {x : Int}
    (h : (Expr.binary op l r).value? ρ = some x)
    (hl : ∀ a, l.value? ρ = some a → Yields ρ op.operandUse a l')
    (hr : ∀ a b, l.value? ρ = some a → op.decided? a = none → r.value? ρ = some b →
      Yields ρ op.operandUse b r') : (Expr.binary op l' r').value? ρ = some x := by
  simp only [Expr.value?, BinOp.combine?, Option.bind_eq_some_iff, Option.or_eq_some_iff] at h ⊢
  obtain ⟨a,ha,hd⟩ := h
  obtain ⟨a',ha',haa⟩ := hl a ha
  refine ⟨a',ha',?_⟩
  rw [BinOp.decided?_congr haa]
  rcases hd with hd | ⟨hnone,b,hb,hx⟩
  · exact .inl hd
  · obtain ⟨b',hb',hbb⟩ := hr a b ha hnone hb
    exact .inr ⟨hnone,b',hb',(BinOp.value?_congr haa hbb).trans hx⟩

private theorem yields_lossy_binary (hρ : ρ.Respects f.declared) {op : BinOp} {l r e' : Expr} {x : Int}
    (hliterals : f.LiteralsKept u op l r) (hquotient : f.QuotientKept ρ op l r)
    (hx : (Expr.binary op l r).value? ρ = some x) (h : f.Lossy (.binary op l r) e') :
    Yields ρ u x e' := by
  cases h with
  | @literals _ a b v hv =>
    have hab : op.value? a.toInt b.toInt = some x := (op.combine?_some _ _).symm.trans hx
    exact ⟨v.toInt,rfl,hliterals a b v x rfl rfl hv hab⟩
  | @quotient l k hk hu =>
    obtain ⟨a,_,ha,_,_⟩ := (Expr.value?_binary_iff fun _ => rfl).mp hx
    obtain ⟨hdiv,hshr⟩ := value?_quotient hk ha
    have hnonneg : 0 ≤ a := by
      cases hd : f.isDeclared l with
      | true => exact nonneg_of_isDeclared hρ hd hu ha
      | false => exact hquotient k a rfl rfl hu hd ha
    refine ⟨_,hshr,.of_eq ?_⟩
    rw [← (tdiv_power_eq_shiftRight_iff a k).mpr (.inl hnonneg)]
    exact Option.some.inj (hx.symm.trans hdiv)

private theorem yields_lossy_unary {op : UnOp} {e e' : Expr} {x : Int}
    (hliteral : f.LiteralKept u op e) (hnegation : NegationKept ρ u op e)
    (hx : (Expr.unary op e).value? ρ = some x) (h : f.Lossy (.unary op e) e') : Yields ρ u x e' := by
  cases h with
  | negLiteral a =>
    cases hx
    exact ⟨_,rfl,hliteral a _ rfl rfl⟩
  | bitNotLiteral a =>
    cases hx
    exact ⟨_,rfl,hliteral a _ rfl rfl⟩
  | doubleNot =>
    obtain ⟨b,hb,rfl⟩ := Expr.value?_unary_iff.mp hx
    obtain ⟨a,ha,rfl⟩ := Expr.value?_unary_iff.mp hb
    refine ⟨a,ha,?_⟩
    cases u with
    | truth => simp [Use.Agree, UnOp.value, truthValue]
    | number =>
      rcases hnegation _ a rfl rfl rfl ha with rfl | rfl <;> rfl

theorem keptAll_iff (args : List Expr) : KeptAll f ρ args ↔ ∀ a ∈ args, Kept f ρ .number a := by
  induction args with
  | nil => simp [KeptAll]
  | cons a args ih => simp [KeptAll, ih]

/-- Arguments that keep their values one by one keep them together. -/
theorem values?_congr {args args' : List Expr} {xs : List Int}
    (hargs : List.Forall₂ (fun a a' => ∀ x, a.value? ρ = some x → a'.value? ρ = some x) args args')
    (h : Expr.values? ρ args = some xs) : Expr.values? ρ args' = some xs := by
  induction hargs generalizing xs with
  | nil => exact h
  | cons ha _ ih =>
    simp only [Expr.values?, Option.bind_eq_some_iff, Option.map_eq_some_iff] at h ⊢
    obtain ⟨x,hx,ys,hys,rfl⟩ := h
    exact ⟨x,ha x hx,ys,ih hys,rfl⟩

/-- Folding keeps what an expression is used for, wherever the rules that may change a number do no
harm. -/
theorem Kept.yields (hρ : ρ.Respects f.declared) {e : Expr} (h : Kept f ρ u e) {x : Int}
    (hx : e.value? ρ = some x) : Yields ρ u x (f.simplify e) := by
  induction e generalizing u x with
  | int v => exact ⟨x,hx,.of_eq rfl⟩
  | str s => exact ⟨x,hx,.of_eq rfl⟩
  | var name => exact ⟨x,hx,.of_eq rfl⟩
  | binary op l r ihl ihr =>
    obtain ⟨hl,hr,hliterals,hquotient⟩ := h
    have hnode : (f.prepared (.binary op l r)).value? ρ = some x :=
      value?_binary_congr hx (fun a ha => ihl hl ha) fun a b ha hd hb => ihr (hr a ha hd) hb
    refine yields_simplify ⟨x,hnode,.of_eq rfl⟩ fun y e' hy hlossy => ?_
    exact yields_lossy_binary hρ hliterals hquotient hy hlossy
  | unary op e ih =>
    obtain ⟨he,hliteral,hnegation⟩ := h
    obtain ⟨a,ha,rfl⟩ := Expr.value?_unary_iff.mp hx
    obtain ⟨a',ha',haa⟩ := ih he ha
    have hnode : (f.prepared (.unary op e)).value? ρ = some (op.value a) :=
      Expr.value?_unary_iff.mpr ⟨a',ha',UnOp.value_congr haa⟩
    refine yields_simplify ⟨_,hnode,.of_eq rfl⟩ fun y e' hy hlossy => ?_
    exact yields_lossy_unary hliteral hnegation hy hlossy
  | index array e ih =>
    obtain ⟨i,hi,rfl⟩ := Option.map_eq_some_iff.mp hx
    obtain ⟨j,hj,hij⟩ := ih (u := .number) h hi
    obtain rfl : i = j := hij
    exact ⟨_,Option.map_eq_some_iff.mpr ⟨i,hj,rfl⟩,.of_eq rfl⟩
  | call name args ih =>
    obtain ⟨xs,hxs,rfl⟩ := Option.map_eq_some_iff.mp hx
    have hargs := (keptAll_iff args).mp h
    refine ⟨_,Option.map_eq_some_iff.mpr ⟨xs,?_,rfl⟩,.of_eq rfl⟩
    rw [simplifyAll_eq_map]
    refine values?_congr (List.forall₂_map_right_iff.mpr (List.forall₂_same.mpr fun a ha x hax => ?_)) hxs
    obtain ⟨y,hy,hxy⟩ := ih a ha (u := .number) (hargs a ha) hax
    obtain rfl : x = y := hxy
    exact hy
  | ternary c y n ihc ihy ihn =>
    obtain ⟨hc,hbranch⟩ := h
    obtain ⟨b,hb,hx⟩ := Expr.value?_ternary_iff.mp hx
    obtain ⟨b',hb',hbb⟩ := ihc hc hb
    have hbb : b = 0 ↔ b' = 0 := hbb
    refine yields_simplify (e := .ternary c y n) ?_ nofun
    by_cases hzero : b = 0
    · rw [if_pos hzero] at hx
      obtain ⟨z,hz,hxz⟩ := ihn ((hbranch b hb).1 hzero) hx
      exact ⟨z,Expr.value?_ternary_iff.mpr ⟨b',hb',by rwa [if_pos (hbb.mp hzero)]⟩,hxz⟩
    · rw [if_neg hzero] at hx
      obtain ⟨z,hz,hxz⟩ := ihy ((hbranch b hb).2 hzero) hx
      exact ⟨z,Expr.value?_ternary_iff.mpr ⟨b',hb',by rwa [if_neg (hbb.not.mp hzero)]⟩,hxz⟩

end Folder

end Cartridge
