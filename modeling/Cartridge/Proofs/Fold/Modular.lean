import Cartridge.Proofs.Fold.Exact
import Cartridge.Proofs.Fold.Step

/-!
Folding and stores that keep the low bits only. Sums, differences, products, bitwise operations and
shifts to the left commute with cutting an integer to a word, so a folded value may leave its domain
and still store the same.
-/
namespace Cartridge

/-- The operators whose low bits come from the low bits of both operands. -/
def BinOp.isModular : BinOp → Bool
  | .add | .sub | .mul | .bitAnd | .bitXor | .bitOr => true
  | _ => false

namespace Expr

/-- Literals and variables under operators that respect low bits; shifts are by literals. -/
inductive IsModular : Expr → Prop where
  | int (v : Int32) : IsModular (.int v)
  | var (name : String) : IsModular (.var name)
  | binary {op : BinOp} {l r : Expr} (hop : op.isModular = true) (hl : IsModular l)
      (hr : IsModular r) : IsModular (.binary op l r)
  | shl {l : Expr} {k : Int32} (hk : 0 ≤ k.toInt) (hl : IsModular l) :
      IsModular (.binary .shl l (.int k))
  | unary {op : UnOp} {e : Expr} (hop : op ≠ .not) (he : IsModular e) : IsModular (.unary op e)

end Expr

namespace Domain
variable {d : Domain}

def word (d : Domain) (x : Int) : BitVec d.bits := BitVec.ofInt d.bits x

theorem modulus_eq (d : Domain) : (d.modulus : Int) = 2 ^ d.bits := by
  cases d <;> rfl

theorem word_eq_iff {x y : Int} : d.word x = d.word y ↔ x % d.modulus = y % d.modulus := by
  have hpos : (0 : Int) < (2 ^ d.bits : Nat) := by positivity
  have hx := Int.emod_nonneg x hpos.ne'
  have hy := Int.emod_nonneg y hpos.ne'
  rw [word, word, ← BitVec.toNat_inj, BitVec.toNat_ofInt, BitVec.toNat_ofInt, modulus_eq]
  push_cast at hx hy ⊢
  omega

/-- What is stored of an integer is decided by its low bits. -/
theorem wrap_eq_of_word_eq {x y : Int} (h : d.word x = d.word y) : d.wrap x = d.wrap y :=
  d.wrap_congr (word_eq_iff.mp h)

@[simp] theorem word_wrap (x : Int) : d.word (d.wrap x) = d.word x :=
  word_eq_iff.mpr (d.wrap_emod x)

theorem compute?_wrapped {op : BinOp} (hop : op.isWrapped = true) {a b x v : Int}
    (hx : op.value? a b = some x) (h : d.compute? op a b = some v) : v = d.wrap x := by
  unfold compute? at h
  split at h
  · cases h
  · simpa [hx, hop, eq_comm] using h

/-- Low bits of operands decide the low bits of the result. -/
theorem word_binary {op : BinOp} (hop : op.isModular = true) {a a' b b' : Int}
    (ha : d.word a' = d.word a) (hb : d.word b' = d.word b) :
    ∃ x y, op.value? a b = some x ∧ op.value? a' b' = some y ∧ d.word y = d.word x := by
  unfold word at *
  cases op with
  | add => exact ⟨_,_,rfl,rfl,by rw [BitVec.ofInt_add, BitVec.ofInt_add, ha, hb]⟩
  | sub =>
    refine ⟨_,_,rfl,rfl,?_⟩
    rw [Int.sub_eq_add_neg, Int.sub_eq_add_neg, BitVec.ofInt_add, BitVec.ofInt_add, BitVec.ofInt_neg,
      BitVec.ofInt_neg, ha, hb]
  | mul => exact ⟨_,_,rfl,rfl,by rw [BitVec.ofInt_mul, BitVec.ofInt_mul, ha, hb]⟩
  | bitAnd => exact ⟨_,_,rfl,rfl,by rw [Bits.ofInt_land, Bits.ofInt_land, ha, hb]⟩
  | bitXor => exact ⟨_,_,rfl,rfl,by rw [Bits.ofInt_xor, Bits.ofInt_xor, ha, hb]⟩
  | bitOr => exact ⟨_,_,rfl,rfl,by rw [Bits.ofInt_lor, Bits.ofInt_lor, ha, hb]⟩
  | _ => cases hop

theorem word_shl {a a' k : Int} (hk : 0 ≤ k) (ha : d.word a' = d.word a) :
    ∃ x y, BinOp.shl.value? a k = some x ∧ BinOp.shl.value? a' k = some y ∧ d.word y = d.word x := by
  refine ⟨_,_,if_neg (by omega),if_neg (by omega),?_⟩
  unfold word at *
  rw [BitVec.ofInt_mul, BitVec.ofInt_mul, ha]

theorem word_unary {op : UnOp} (hop : op ≠ .not) {a a' : Int} (ha : d.word a' = d.word a) :
    d.word (op.value a') = d.word (op.value a) := by
  unfold word at *
  cases op with
  | not => exact (hop rfl).elim
  | neg => rw [UnOp.value, UnOp.value, BitVec.ofInt_neg, BitVec.ofInt_neg, ha]
  | bitNot => rw [UnOp.value, UnOp.value, Bits.ofInt_lnot, Bits.ofInt_lnot, ha]

end Domain

/-- Both expressions have values, and the same low bits of them. -/
def Expr.SameWord (d : Domain) (ρ : Valuation) (e e' : Expr) : Prop :=
  ∃ x y, e.value? ρ = some x ∧ e'.value? ρ = some y ∧ d.word y = d.word x

namespace Expr.SameWord
variable {d : Domain} {ρ : Valuation} {e e' e'' l l' r r' : Expr}

theorem trans (h : SameWord d ρ e e') (h' : SameWord d ρ e' e'') : SameWord d ρ e e'' := by
  obtain ⟨x,y,hx,hy,hxy⟩ := h
  obtain ⟨y',z,hy',hz,hyz⟩ := h'
  cases hy.symm.trans hy'
  exact ⟨x,z,hx,hz,hyz.trans hxy⟩

theorem binary {op : BinOp} (hop : op.isModular = true) (hl : SameWord d ρ l l')
    (hr : SameWord d ρ r r') : SameWord d ρ (.binary op l r) (.binary op l' r') := by
  have hdecided (a : Int) : op.decided? a = none := by cases op <;> cases hop <;> rfl
  obtain ⟨a,a',ha,ha',hword⟩ := hl
  obtain ⟨b,b',hb,hb',hword'⟩ := hr
  obtain ⟨x,y,hx,hy,hxy⟩ := Domain.word_binary hop hword hword'
  exact ⟨x,y,(value?_binary_iff hdecided).mpr ⟨a,b,ha,hb,hx⟩,
    (value?_binary_iff hdecided).mpr ⟨a',b',ha',hb',hy⟩,hxy⟩

theorem shl {k : Int32} (hk : 0 ≤ k.toInt) (hl : SameWord d ρ l l') :
    SameWord d ρ (.binary .shl l (.int k)) (.binary .shl l' (.int k)) := by
  obtain ⟨a,a',ha,ha',hword⟩ := hl
  obtain ⟨x,y,hx,hy,hxy⟩ := Domain.word_shl hk hword
  exact ⟨x,y,(value?_binary_iff fun _ => rfl).mpr ⟨a,k.toInt,ha,rfl,hx⟩,
    (value?_binary_iff fun _ => rfl).mpr ⟨a',k.toInt,ha',rfl,hy⟩,hxy⟩

theorem unary {op : UnOp} (hop : op ≠ .not) (he : SameWord d ρ e e') :
    SameWord d ρ (.unary op e) (.unary op e') := by
  obtain ⟨a,a',ha,ha',hword⟩ := he
  exact ⟨op.value a,op.value a',value?_unary_iff.mpr ⟨a,ha,rfl⟩,value?_unary_iff.mpr ⟨a',ha',rfl⟩,
    Domain.word_unary hop hword⟩

end Expr.SameWord

/-- Such expressions have a value whatever their variables hold. -/
theorem Expr.IsModular.sameWord_self {d : Domain} {ρ : Valuation} {e : Expr} (h : e.IsModular) :
    e.SameWord d ρ e := by
  induction h with
  | int v => exact ⟨_,_,rfl,rfl,rfl⟩
  | var name => exact ⟨_,_,rfl,rfl,rfl⟩
  | binary hop _ _ ihl ihr => exact ihl.binary hop ihr
  | shl hk _ ih => exact ih.shl hk
  | unary hop _ ih => exact ih.unary hop

namespace Folder
variable {f : Folder} {ρ : Valuation}

/-- Rules bring in no other operators than shifts by a literal. -/
theorem Rule.isModular {e e' : Expr} (h : Rule f e e') (he : e.IsModular) : e'.IsModular := by
  have hk {k : Nat} (hk : 1 ≤ k ∧ k ≤ 15) : 0 ≤ (Int32.ofNat k).toInt := by
    rw [(toInt_power hk).2]
    omega
  cases h with
  | literals | absorbRight | absorbLeft | cancel | negLiteral | notLiteral | bitNotLiteral =>
    exact .int _
  | keep => exact .var _
  | zeroRight | oneRight => cases he <;> assumption
  | zeroLeft h =>
    cases he with
    | binary hop hl hr => exact hr
    | shl => exact .int _
  | oneLeft => cases he with | binary hop hl hr => exact hr
  | shiftLeft h => cases he with | binary hop hl hr => exact .shl (hk h) hl
  | shiftRight h => cases he with | binary hop hl hr => exact .shl (hk h) hr
  | quotient => cases he with | binary hop => cases hop
  | twice op e => cases he with | unary hop he => cases he with | unary hop he => exact he
  | chosen | refused => cases he

/-- Rules keep the low bits of a value. -/
theorem Rule.sameWord {e e' : Expr} (h : Rule f e e') (he : e.IsModular) :
    e.SameWord f.domain ρ e' := by
  obtain ⟨x,-,hx,-⟩ := he.sameWord_self (d := f.domain) (ρ := ρ)
  rcases h.exact_or_lossy with hexact | hlossy
  · exact ⟨x,x,hx,hexact ρ x hx,rfl⟩
  cases hlossy with
  | @literals op a b v hv =>
    have hop : op.isWrapped = true ∧ (∀ a, op.decided? a = none) ∧ op ≠ .shr := by
      cases he with
      | binary hop => cases op <;> cases hop <;> exact ⟨rfl,fun _ => rfl,nofun⟩
      | shl => exact ⟨rfl,fun _ => rfl,nofun⟩
    obtain ⟨hwrapped,hdecided,hshr⟩ := hop
    obtain ⟨_,_,ha,hb,hab⟩ := (Expr.value?_binary_iff hdecided).mp hx
    cases ha
    cases hb
    have hv := Domain.compute?_wrapped hwrapped hab (evaluate?_eq_some (absurd · hshr) hv)
    exact ⟨x,v.toInt,hx,rfl,by rw [hv, Domain.word_wrap]⟩
  | negLiteral a => exact ⟨_,_,rfl,rfl,by rw [toInt_wrap, Domain.word_wrap]; rfl⟩
  | bitNotLiteral a => exact ⟨_,_,rfl,rfl,by rw [toInt_wrap, wrap_lnot, Domain.word_wrap]; rfl⟩
  | doubleNot => cases he with | unary hop => exact (hop rfl).elim
  | quotient => cases he with | binary hop => cases hop

private theorem sameWord_of_prepared {e : Expr} (h : e.SameWord f.domain ρ (f.prepared e))
    (hm : (f.prepared e).IsModular) :
    e.SameWord f.domain ρ (f.simplify e) ∧ (f.simplify e).IsModular := by
  rcases f.simplify_cases e with heq | hrule
  · rw [heq]
    exact ⟨h,hm⟩
  · exact ⟨h.trans (hrule.sameWord hm),hrule.isModular hm⟩

theorem simplify_sameWord {e : Expr} (h : e.IsModular) :
    e.SameWord f.domain ρ (f.simplify e) ∧ (f.simplify e).IsModular := by
  induction h with
  | int v => exact ⟨⟨_,_,rfl,rfl,rfl⟩,.int v⟩
  | var name => exact ⟨⟨_,_,rfl,rfl,rfl⟩,.var name⟩
  | binary hop _ _ ihl ihr =>
    exact sameWord_of_prepared (ihl.1.binary hop ihr.1) (.binary hop ihl.2 ihr.2)
  | shl hk _ ih => exact sameWord_of_prepared (ih.1.shl hk) (.shl hk ih.2)
  | unary hop _ ih => exact sameWord_of_prepared (ih.1.unary hop) (.unary hop ih.2)

/-- A store does not show whether a value was folded: whatever integers the variables hold and however
they are declared, the exact values before and after folding are both there and wrap to the same value
of the folder's domain. -/
theorem stored_value_is_folded_value (f : Folder) (ρ : Valuation) (e : Expr) (h : e.IsModular) :
    ∃ x y, e.value? ρ = some x ∧ (f.simplify e).value? ρ = some y ∧
      f.domain.wrap y = f.domain.wrap x := by
  obtain ⟨⟨x,y,hx,hy,hxy⟩,-⟩ := simplify_sameWord (f := f) (ρ := ρ) h
  exact ⟨x,y,hx,hy,Domain.wrap_eq_of_word_eq hxy⟩

/-- `((x * 256 + 300) & ~y) << 3` in eight signed bits, where `x` and `y` are declared with other
domains and hold integers of no domain at all. -/
theorem stored_value_is_folded_value_wide :
    let e : Expr := .binary .shl (.binary .bitAnd
      (.binary .add (.binary .mul (.var "x") (.int 256)) (.binary .add (.int 100) (.int 200)))
      (.unary .bitNot (.var "y"))) (.int 3)
    let f : Folder := { domain := .i8, declared := fun name => if name = "x" then some .u16 else none }
    let ρ : Valuation := { (default : Valuation) with
      var := fun name => if name = "x" then 1000000 else -70001 }
    e.IsModular ∧ ∃ x y, e.value? ρ = some x ∧ (f.simplify e).value? ρ = some y ∧
      f.domain.wrap y = f.domain.wrap x := by
  intro e f ρ
  have h : e.IsModular := .shl (by decide)
    (.binary rfl (.binary rfl (.binary rfl (.var "x") (.int 256)) (.binary rfl (.int 100) (.int 200)))
      (.unary (by decide) (.var "y")))
  exact ⟨h,stored_value_is_folded_value f ρ e h⟩

end Folder

end Cartridge
