import Mathlib.Tactic.Common
import Cartridge.Proofs.Expr.Reading
import Cartridge.Proofs.Number.Bits

/-!
When an expression's text keeps its value. Moving an operator to the left end of the operand after it
is harmless if the operator may change places with every operator on that end. For a product this fails
as soon as a quotient or a remainder stands there.
-/
namespace Cartridge

namespace BinOp

private theorem and_regroup (x y z : Option Int) :
    BinOp.and.combine? x (BinOp.and.combine? y z) = BinOp.and.combine? (BinOp.and.combine? x y) z := by
  rcases x with _ | a
  · rfl
  · by_cases ha : a = 0
    · simp [combine?, decided?, ha]
    · rcases y with _ | b
      · simp [combine?, decided?, ha]
      · by_cases hb : b = 0
        · simp [combine?, decided?, value?, truthValue, ha, hb]
        · cases z <;> simp [combine?, decided?, value?, truthValue, ha, hb]

private theorem or_regroup (x y z : Option Int) :
    BinOp.or.combine? x (BinOp.or.combine? y z) = BinOp.or.combine? (BinOp.or.combine? x y) z := by
  rcases x with _ | a
  · rfl
  · by_cases ha : a = 0
    · rcases y with _ | b
      · simp [combine?, decided?, ha]
      · by_cases hb : b = 0
        · cases z <;> simp [combine?, decided?, value?, truthValue, ha, hb]
        · simp [combine?, decided?, value?, truthValue, ha, hb]
    · simp [combine?, decided?, ha]

/-- Values may be regrouped where one operator lets the other change places with it. -/
theorem combine?_regroup {op c : BinOp} (h : op.regroups c = true) (x y z : Option Int) :
    op.combine? x (c.combine? y z) = c.combine? (op.combine? x y) z := by
  cases op <;> cases c <;>
    simp only [regroups, decide_false, decide_true, Bool.or_self, Bool.or_false, Bool.or_true,
      reduceCtorEq, Bool.false_eq_true] at h
  case and.and => exact and_regroup x y z
  case or.or => exact or_regroup x y z
  all_goals
    rcases x with _ | x
    · rfl
    rcases y with _ | y
    · rfl
    rcases z with _ | z
    · rfl
    simp [combine?, decided?, value?, Bits.land_assoc, Bits.lor_assoc, Bits.xor_assoc, Int.mul_assoc,
      Int.add_assoc, Int.add_sub_assoc]

end BinOp

namespace Expr

/-- The operators of one level at the left end of an expression, the outermost first. -/
def spine : Expr → List BinOp
  | .binary op l _ => op :: if l.isAt op.level then l.spine else []
  | _ => []

/-- The operators that come to follow one another where a right operand drops its parentheses. -/
def joint : Expr → List BinOp
  | .binary op _ r => if r.joins op then op :: r.spine else []
  | _ => []

/-- No quotient or remainder stands at the left end of a right factor without parentheses. -/
def KeepsQuotients (e : Expr) : Prop := e.joint.head? = some .mul → ∀ c ∈ e.joint, c = .mul

instance : DecidablePred KeepsQuotients := fun e =>
  inferInstanceAs (Decidable (e.joint.head? = some .mul → ∀ c ∈ e.joint, c = .mul))

/-- Parentheses are dropped in `d` only between operators between which `e` drops them too. -/
def DropsAs (e d : Expr) : Prop :=
  d.Every fun s => s.joint = [] ∨ ¬e.Every fun u => u.joint ≠ s.joint

def IsNumeric : Expr → Prop
  | .str _ => False
  | _ => True

instance : DecidablePred IsNumeric
  | .str _ => .isFalse id
  | .int _ | .var _ | .binary _ _ _ | .unary _ _ | .index _ _ | .call _ _ | .ternary _ _ _ =>
    .isTrue trivial

theorem isAt_of_mem_spine {e : Expr} {c : BinOp} (h : c ∈ e.spine) : e.isAt c.level = true := by
  induction e with
  | binary op l r ihl =>
    rw [spine] at h
    rcases List.mem_cons.mp h with rfl | h
    · simp [isAt]
    · split_ifs at h with hat
      · have hl := ihl h
        cases l <;> simp_all [isAt]
      · cases h
  | _ => cases h

/-- An operator regroups with all of the left end of an operand that it joins. -/
theorem regroups_of_mem_spine {op c : BinOp} {l r : Expr} (h : (Expr.binary op l r).KeepsQuotients)
    (hjoin : r.joins op = true) (hc : c ∈ r.spine) : op.regroups c = true := by
  have hat := isAt_of_mem_spine hc
  cases r with
  | binary d x y =>
    have hlevel : d.level = c.level := by simpa [isAt] using hat
    cases op with
    | mul =>
      rw [KeepsQuotients, joint, if_pos hjoin] at h
      obtain rfl := h rfl c (List.mem_cons_of_mem _ hc)
      rfl
    | _ =>
      cases d <;> simp [joins, BinOp.regroups] at hjoin
      all_goals cases c <;> simp_all [BinOp.regroups, BinOp.level]
  | _ => cases hjoin

def Acts (ρ : Valuation) (k : Term → Term) (φ : Option Int → Option Int) : Prop :=
  ∀ t, (k t).value? ρ = φ (t.value? ρ)

theorem Acts.id (ρ : Valuation) : Acts ρ id id := fun _ => rfl

/-- The value of an expression's reading, after operands that change places with its left end. -/
def KeepsValue (ρ : Valuation) (e : Expr) : Prop :=
  ∀ k φ, Acts ρ k φ → (∀ c ∈ e.spine, ∀ x y, φ (c.combine? x y) = c.combine? (φ x) y) →
    (e.readingAfter k).value? ρ = φ (e.value? ρ)

theorem KeepsValue.value_eq {ρ : Valuation} {e : Expr} (h : KeepsValue ρ e) :
    e.reading.value? ρ = e.value? ρ := h id id (.id ρ) fun _ _ _ _ => rfl

/-- Where an expression is no chain of operands, its own reading is what counts. -/
theorem KeepsValue.of_reading {ρ : Valuation} {e : Expr} (he : ∀ k, e.readingAfter k = k e.reading)
    (h : e.reading.value? ρ = e.value? ρ) : KeepsValue ρ e := by
  intro k φ hk _
  rw [he, hk, h]

theorem KeepsValue.int (ρ : Valuation) (v : Int32) : KeepsValue ρ (.int v) := by
  refine .of_reading (fun k => rfl) ?_
  have hv : v < 0 ↔ v.toInt < 0 := Int32.lt_iff_toInt_lt
  simp only [reading, readingAfter, id, value?]
  split_ifs with hneg
  · have hlt := hv.mp hneg
    simp only [Term.value?, UnOp.value, Option.map_some, Option.some.injEq]
    omega
  · have hge := mt hv.mpr hneg
    simp only [Term.value?, Option.some.injEq]
    omega

theorem KeepsValue.binary {ρ : Valuation} {op : BinOp} {l r : Expr} (hl : KeepsValue ρ l)
    (hr : KeepsValue ρ r) (h : (Expr.binary op l r).KeepsQuotients) :
    KeepsValue ρ (.binary op l r) := by
  intro k φ hk hφ
  have hleft : (l.leftReading op k).value? ρ = φ (l.value? ρ) := by
    unfold leftReading
    split_ifs with hat
    · refine hl k φ hk fun c hc => hφ c ?_
      rw [spine, if_pos hat]
      exact List.mem_cons_of_mem op hc
    · rw [hk, hl.value_eq]
  have hright : ((Expr.binary op l r).readingAfter k).value? ρ =
      op.combine? (φ (l.value? ρ)) (r.value? ρ) := by
    rw [readingAfter_binary]
    split_ifs with hjoin
    · refine hr _ (op.combine? (φ (l.value? ρ))) (fun t => ?_) fun c hc x y => ?_
      · rw [Term.value?, hleft]
      · exact BinOp.combine?_regroup (regroups_of_mem_spine h hjoin hc) _ x y
    · rw [Term.value?, hleft, hr.value_eq]
  rw [hright, value?, hφ op (by simp [spine])]

private theorem values?_map_reading {ρ : Valuation} {args : List Expr}
    (h : ∀ a ∈ args, KeepsValue ρ a) : Term.values? ρ (args.map reading) = values? ρ args := by
  induction args with
  | nil => rfl
  | cons a args ih =>
    have ha := (h a (by simp)).value_eq
    have hargs := ih fun b hb => h b (List.mem_cons_of_mem a hb)
    simp only [List.map_cons, Term.values?, values?, ha, hargs]

theorem keepsValue {e : Expr} (hkeep : e.Every KeepsQuotients) (hnum : e.Every IsNumeric)
    (ρ : Valuation) : KeepsValue ρ e := by
  induction e with
  | int v => exact .int ρ v
  | str s => exact absurd hnum id
  | var s => exact .of_reading (fun k => rfl) rfl
  | binary op l r ihl ihr =>
    exact (ihl hkeep.2.1 hnum.2.1).binary (ihr hkeep.2.2 hnum.2.2) hkeep.1
  | unary op e ih =>
    have he := (ih hkeep.2 hnum.2).value_eq
    refine .of_reading (fun k => rfl) ?_
    change (Term.unary op e.reading).value? ρ = _
    rw [Term.value?, value?, he]
  | index array e ih =>
    have he := (ih hkeep.2 hnum.2).value_eq
    refine .of_reading (fun k => rfl) ?_
    change (Term.index array e.reading).value? ρ = _
    rw [Term.value?, value?, he]
  | call f args ih =>
    have hkeep := (everyOf_iff args).mp hkeep.2
    have hnum := (everyOf_iff args).mp hnum.2
    have hargs := values?_map_reading fun a ha => ih a ha (hkeep a ha) (hnum a ha)
    refine .of_reading (fun k => rfl) ?_
    rw [reading_call, Term.value?, value?, hargs]
  | ternary c y n ihc ihy ihn =>
    obtain ⟨-,hkc,hky,hkn⟩ := hkeep
    obtain ⟨-,hnc,hny,hnn⟩ := hnum
    have hc := (ihc hkc hnc).value_eq
    have hy := (ihy hky hny).value_eq
    have hn := (ihn hkn hnn).value_eq
    refine .of_reading (fun k => rfl) ?_
    change (Term.ternary c.reading y.reading n.reading).value? ρ = _
    rw [Term.value?, value?, hc, hy, hn]

/-- An operand that lets the first quotient or remainder tell one from two, and changes neither
zero nor one later on. -/
def tellingOperand (op : BinOp) (before : List BinOp) : Int32 :=
  match op with
  | .mul => 1
  | .mod => 2
  | _ => if ∀ c ∈ before, c = .mul then 2 else 1

def literalChain : List BinOp → Expr
  | [] => .int 1
  | op :: before => .binary op (literalChain before) (.int (tellingOperand op before))

private theorem isAt_literalChain {op : BinOp} {before : List BinOp}
    (h : ∀ c ∈ before, c.level = op.level) :
    (literalChain before).isAt op.level = !before.isEmpty := by
  cases before with
  | nil => rfl
  | cons c before => simp [literalChain, isAt, h c (by simp)]

private theorem spine_literalChain {ops : List BinOp} {level : Level} (h : ∀ c ∈ ops, c.level = level) :
    (literalChain ops).spine = ops := by
  induction ops with
  | nil => rfl
  | cons op before ih =>
    have hbefore : ∀ c ∈ before, c.level = op.level := fun c hc =>
      (h c (List.mem_cons_of_mem op hc)).trans (h op (by simp)).symm
    rw [literalChain, spine, isAt_literalChain hbefore, ih fun c hc => h c (List.mem_cons_of_mem op hc)]
    cases before <;> rfl

private theorem readingAfter_literalChain {op : BinOp} {before : List BinOp}
    (h : ∀ c ∈ before, c.level = op.level) (k : Term → Term) :
    (literalChain (op :: before)).readingAfter k =
      .binary op ((literalChain before).readingAfter k) (Expr.int (tellingOperand op before)).reading := by
  have hleft : (literalChain before).leftReading op k = (literalChain before).readingAfter k := by
    rw [leftReading, isAt_literalChain h]
    cases before <;> rfl
  rw [literalChain, readingAfter_binary, hleft]
  rfl

private theorem keeps_bit {op : BinOp} {before : List BinOp} (h : op.level = .multiplicative)
    (hq : ∃ c ∈ before, c ≠ .mul) :
    op.combine? (some 0) (some (tellingOperand op before).toInt) = some 0 ∧
      op.combine? (some 1) (some (tellingOperand op before).toInt) = some 1 := by
  cases op with
  | mul =>
    have hone : tellingOperand .mul before = 1 := rfl
    rw [hone]
    decide
  | mod =>
    have htwo : tellingOperand .mod before = 2 := rfl
    rw [htwo]
    decide
  | div =>
    have hone : tellingOperand .div before = 1 := by
      obtain ⟨c,hc,hne⟩ := hq
      exact if_neg fun hall => hne (hall c hc)
    rw [hone]
    decide
  | _ => cases h

/-- A factor two before a chain of literals shows in its value unless only factors follow. -/
private theorem literalChain_values {ops : List BinOp} (h : ∀ c ∈ ops, c.level = .multiplicative)
    (ρ : Valuation) {k : Term → Term} (hk : Acts ρ k (BinOp.mul.combine? (some 2))) :
    ((∀ c ∈ ops, c = .mul) ∧ (literalChain ops).value? ρ = some 1 ∧
      ((literalChain ops).readingAfter k).value? ρ = some 2) ∨
    ((∃ c ∈ ops, c ≠ .mul) ∧
      ((literalChain ops).value? ρ = some 0 ∧ ((literalChain ops).readingAfter k).value? ρ = some 1 ∨
        (literalChain ops).value? ρ = some 1 ∧ ((literalChain ops).readingAfter k).value? ρ = some 0)) := by
  induction ops with
  | nil =>
    refine .inl ⟨by simp,rfl,?_⟩
    change (k (Expr.int 1).reading).value? ρ = some 2
    rw [hk]
    rfl
  | cons op before ih =>
    have hlevel : op.level = .multiplicative := h op (by simp)
    have hbefore : ∀ c ∈ before, c.level = .multiplicative := fun c hc =>
      h c (List.mem_cons_of_mem op hc)
    have hoperand := (KeepsValue.int ρ (tellingOperand op before)).value_eq
    have hvalue : (literalChain (op :: before)).value? ρ = op.combine? ((literalChain before).value? ρ)
        (some (tellingOperand op before).toInt) := by rw [literalChain, value?, value?]
    have hread : ((literalChain (op :: before)).readingAfter k).value? ρ =
        op.combine? (((literalChain before).readingAfter k).value? ρ)
          (some (tellingOperand op before).toInt) := by
      rw [readingAfter_literalChain fun c hc => (hbefore c hc).trans hlevel.symm, Term.value?,
        hoperand, value?]
    rw [hvalue, hread]
    rcases ih hbefore with ⟨hall,hu,hw⟩ | ⟨⟨c,hc,hne⟩,hcases⟩
    · rw [hu, hw]
      cases op with
      | mul =>
        have hone : tellingOperand .mul before = 1 := rfl
        rw [hone]
        exact .inl ⟨by simpa using hall,by decide,by decide⟩
      | div =>
        have htwo : tellingOperand .div before = 2 := if_pos hall
        rw [htwo]
        exact .inr ⟨⟨.div,by simp⟩,.inl ⟨by decide,by decide⟩⟩
      | mod =>
        have htwo : tellingOperand .mod before = 2 := rfl
        rw [htwo]
        exact .inr ⟨⟨.mod,by simp⟩,.inr ⟨by decide,by decide⟩⟩
      | _ => cases hlevel
    · have hkeep := keeps_bit hlevel ⟨c,hc,hne⟩
      refine .inr ⟨⟨c,List.mem_cons_of_mem op hc,hne⟩,?_⟩
      rcases hcases with ⟨hu,hw⟩ | ⟨hu,hw⟩
      · exact .inl ⟨by rw [hu, hkeep.1],by rw [hw, hkeep.2]⟩
      · exact .inr ⟨by rw [hu, hkeep.2],by rw [hw, hkeep.1]⟩

private theorem every_literalChain {p : Expr → Prop} (hint : ∀ v, p (.int v))
    (hbinary : ∀ op l v, p (.binary op l (.int v))) (ops : List BinOp) : (literalChain ops).Every p := by
  induction ops with
  | nil => exact hint 1
  | cons op before ih => exact ⟨hbinary op _ _,ih,hint _⟩

/-- The literals two and a chain make a product whose text has another value. -/
private theorem product_literalChain {before : List BinOp}
    (h : ∀ c ∈ before, c.level = .multiplicative) (hq : ∃ c ∈ before, c ≠ .mul) (ρ : Valuation) :
    ∃ v w, (Expr.binary .mul (.int 2) (literalChain (.mul :: before))).value? ρ = some v ∧
      (Expr.binary .mul (.int 2) (literalChain (.mul :: before))).reading.value? ρ = some w ∧ v ≠ w := by
  have hacts : Acts ρ (.binary .mul (Expr.int 2).reading) (BinOp.mul.combine? (some 2)) := fun _ => rfl
  have hlevel : ∀ c ∈ BinOp.mul :: before, c.level = .multiplicative := by simpa [BinOp.level] using h
  have hread : (Expr.binary .mul (.int 2) (literalChain (.mul :: before))).reading =
      (literalChain (.mul :: before)).readingAfter (.binary .mul (Expr.int 2).reading) := by
    rw [reading, readingAfter_binary]
    rfl
  have htwo : (Expr.int 2).value? ρ = some 2 := rfl
  rw [hread, value?, htwo]
  obtain ⟨c,hc,hne⟩ := hq
  rcases literalChain_values hlevel ρ hacts with ⟨hall,-⟩ | ⟨-,⟨hu,hw⟩ | ⟨hu,hw⟩⟩
  · exact absurd (hall c (List.mem_cons_of_mem _ hc)) hne
  · exact ⟨0,1,by rw [hu]; rfl,hw,by decide⟩
  · exact ⟨2,0,by rw [hu]; rfl,hw,by decide⟩

private theorem joint_of_not_keepsQuotients {e : Expr} (h : ¬e.KeepsQuotients) :
    ∃ before, e.joint = .mul :: .mul :: before ∧ ∀ c ∈ before, c.level = .multiplicative := by
  obtain ⟨hhead,-⟩ := Classical.not_imp.mp h
  cases e with
  | binary op l r =>
    rw [joint] at hhead ⊢
    split_ifs at hhead ⊢ with hjoin
    · obtain rfl : op = .mul := Option.some.inj hhead
      cases r with
      | binary d a b =>
        obtain rfl : d = .mul := by simpa [joins, BinOp.regroups] using hjoin
        refine ⟨_,rfl,fun c hc => ?_⟩
        have hat := isAt_of_mem_spine (e := .binary .mul a b) (List.mem_cons_of_mem _ hc)
        exact (by simpa [isAt] using hat : BinOp.mul.level = c.level).symm
      | _ => cases hjoin
    · cases hhead
  | _ => cases hhead

/-- A product that does not keep its quotients drops its parentheses as one of another value does. -/
theorem misread_of_not_keepsQuotients {e : Expr} (h : ¬e.KeepsQuotients) :
    ∃ d : Expr, d.Every (fun s => s.joint = [] ∨ s.joint = e.joint) ∧ d.Every IsNamed ∧
      d.Every IsNumeric ∧ ∀ ρ, ∃ v w, d.value? ρ = some v ∧ d.reading.value? ρ = some w ∧ v ≠ w := by
  obtain ⟨before,hjoint,hlevel⟩ := joint_of_not_keepsQuotients h
  simp only [KeepsQuotients, hjoint, Classical.not_imp, not_forall] at h
  obtain ⟨-,c,hc,hne⟩ := h
  have hc : c ∈ before := by simpa [hne] using hc
  refine ⟨.binary .mul (.int 2) (literalChain (.mul :: before)),⟨.inr ?_,.inl rfl,?_⟩,
    ⟨trivial,trivial,?_⟩,⟨trivial,trivial,?_⟩,product_literalChain hlevel ⟨c,hc,hne⟩⟩
  · have hlevels : ∀ d ∈ BinOp.mul :: before, d.level = .multiplicative :=
      List.forall_mem_cons.mpr ⟨rfl,hlevel⟩
    rw [hjoint, joint, if_pos (by rfl), spine_literalChain hlevels]
  · exact every_literalChain (fun _ => .inl rfl) (fun _ _ _ => .inl rfl) _
  · exact every_literalChain (fun _ => trivial) (fun _ _ _ => trivial) _
  · exact every_literalChain (fun _ => trivial) (fun _ _ _ => trivial) _

/-- Parentheses dropped as in an expression that keeps its quotients keep them too. -/
theorem DropsAs.keepsQuotients {e d : Expr} (h : e.DropsAs d) (hkeep : e.Every KeepsQuotients) :
    d.Every KeepsQuotients := by
  refine h.mono fun s hs => ?_
  rcases hs with hnil | hpart
  · intro hhead
    rw [hnil] at hhead
    cases hhead
  · by_contra hs
    refine hpart (hkeep.mono fun u hu hjoint => hs ?_)
    rwa [KeepsQuotients, hjoint] at hu

/-- The text of an expression has one reading, and this has the expression's value. -/
def IsReadRight (e : Expr) : Prop :=
  ∃ t, Term.ReadFrom e.text t ∧ (∀ u, Term.ReadFrom e.text u → u = t) ∧
    ∀ ρ v, e.value? ρ = some v → t.value? ρ = some v

theorem isReadRight {e : Expr} (hnamed : e.Every IsNamed) (hnum : e.Every IsNumeric)
    (hkeep : e.Every KeepsQuotients) : e.IsReadRight := by
  have hread := readFrom_text hnamed
  refine ⟨e.reading,hread,fun u hu => hu.unique hread,fun ρ v hv => ?_⟩
  rw [(keepsValue hkeep hnum ρ).value_eq, hv]

/-- An expression is read right from its text unless a right factor without parentheses starts with a
quotient or a remainder. Where one does, the same parentheses are missing in one that is misread. -/
theorem text_is_misread_only_past_quotients (e : Expr) (hnamed : e.Every IsNamed)
    (hnum : e.Every IsNumeric) : (e.Every KeepsQuotients → e.IsReadRight) ∧
      (e.Every KeepsQuotients ↔
        ∀ d, e.DropsAs d → d.Every IsNamed → d.Every IsNumeric → d.IsReadRight) := by
  refine ⟨isReadRight hnamed hnum,fun hkeep d hdrops hdnamed hdnum => ?_,fun hright => ?_⟩
  · exact isReadRight hdnamed hdnum (hdrops.keepsQuotients hkeep)
  · by_contra hkeep
    obtain ⟨s,hs,hpart⟩ := exists_of_not_every hkeep
    obtain ⟨d,hjoint,hdnamed,hdnum,hvalue⟩ := misread_of_not_keepsQuotients hs
    have hdrops : e.DropsAs d :=
      hjoint.mono fun u hu => hu.imp_right fun hu hall => hpart _ hall hu.symm
    obtain ⟨t,-,honly,hkept⟩ := hright d hdrops hdnamed hdnum
    obtain ⟨v,w,hv,hw,hne⟩ := hvalue default
    rw [honly _ (readFrom_text hdnamed)] at hw
    exact hne (Option.some.inj ((hkept _ v hv).symm.trans hw))

example : (Expr.binary .mul (.var "a")
    (.binary .mul (.binary .div (.var "x") (.var "y")) (.var "c"))).text = "a * x / y * c" := by decide

def quotientFactor : Expr :=
  .binary .mul (.var "a") (.binary .mul (.binary .div (.var "x") (.var "y")) (.var "c"))

def bareOperands : Expr :=
  .binary .add (.unary .neg (.int (-3))) (.binary .sub (.var "x")
    (.binary .mul (.call "f" [.var "y"]) (.binary .mul (.index "g" (.var "i")) (.int 5))))

theorem bareOperands_text_keeps_value : bareOperands.IsReadRight ∧
    ∃ d, quotientFactor.DropsAs d ∧ d.Every IsNamed ∧ d.Every IsNumeric ∧ ¬d.IsReadRight := by
  constructor
  · exact (text_is_misread_only_past_quotients bareOperands (by decide) (by decide)).1 (by decide)
  · have hexact := (text_is_misread_only_past_quotients quotientFactor (by decide) (by decide)).2
    have hnot := mt hexact.mpr (by decide)
    simpa only [not_forall, exists_prop] using hnot

def twoOrOne : Valuation where
  var s := if s = "a" ∨ s = "y" then 2 else 1
  element _ _ := 1
  call _ _ := 1
  text _ := 1

theorem quotientFactor_is_misread :
    ∃ t, Term.ReadFrom quotientFactor.text t ∧ quotientFactor.value? twoOrOne = some 0 ∧
      t.value? twoOrOne = some 1 :=
  ⟨_,readFrom_text (by decide),by decide,by decide⟩

end Expr

end Cartridge
