import Cartridge.Proofs.Fold.Exact
import Cartridge.Proofs.Fold.Step

/-!
Quotients that become shifts. The folder takes an operation for unsigned whenever its own domain is, but
computed without wrapping an operation may be negative. Then the quotient is cut toward zero and the
shift goes down, and the two agree only on multiples.
-/
namespace Cartridge

namespace Expr

def isOperation : Expr → Bool
  | .binary .. | .unary .. | .ternary .. => true
  | _ => false

end Expr

/-- All that an expression reads holds a value of its declared domain, or else of the folder's. -/
structure Valuation.Holds (ρ : Valuation) (f : Folder) : Prop where
  var : ∀ name, ((f.declared name).getD f.domain).Fits (ρ.var name)
  element : ∀ array i, ((f.declared array).getD f.domain).Fits (ρ.element array i)
  call : ∀ name args, f.domain.Fits (ρ.call name args)
  text : ∀ s, f.domain.Fits (ρ.text s)

namespace Folder
variable {f : Folder} {ρ : Valuation}

/-- Operators and declarations keep an expression from being negative. -/
def NeverNegative (f : Folder) : Expr → Prop
  | .int v => 0 ≤ v.toInt
  | .str _ | .call _ _ => f.domain.isSigned = false
  | .var name | .index name _ => ((f.declared name).getD f.domain).isSigned = false
  | .unary op _ => op = .not
  | .ternary _ y n => NeverNegative f y ∧ NeverNegative f n
  | .binary op l r =>
    match op with
    | .sub => False
    | .add | .mul | .div | .bitXor | .bitOr => NeverNegative f l ∧ NeverNegative f r
    | .bitAnd => NeverNegative f l ∨ NeverNegative f r
    | .mod | .shl | .shr => NeverNegative f l
    | .lt | .le | .gt | .ge | .eq | .ne | .and | .or => True

theorem nonneg_of_fits {d : Domain} {x : Int} (hd : d.isSigned = false) (h : d.Fits x) : 0 ≤ x := by
  cases d with
  | u8 | u16 => exact h.1
  | i8 | i16 => cases hd

theorem truthValue_nonneg (p : Prop) [Decidable p] : 0 ≤ truthValue p := by
  unfold truthValue
  split <;> decide

/-- An operation that needs both operands is not negative where the operands it depends on are not. -/
private theorem nonneg_binary {op : BinOp} {l r : Expr} (h : f.NeverNegative (.binary op l r))
    {a b x : Int} (hl : f.NeverNegative l → 0 ≤ a) (hr : f.NeverNegative r → 0 ≤ b)
    (hx : op.value? a b = some x) : 0 ≤ x := by
  cases op with
  | sub => exact h.elim
  | add =>
    cases hx
    exact Int.add_nonneg (hl h.1) (hr h.2)
  | mul =>
    cases hx
    exact Int.mul_nonneg (hl h.1) (hr h.2)
  | div =>
    simp only [BinOp.value?, Option.ite_none_left_eq_some, Option.some.injEq] at hx
    rw [← hx.2]
    exact Int.tdiv_nonneg (hl h.1) (hr h.2)
  | mod =>
    simp only [BinOp.value?, Option.ite_none_left_eq_some, Option.some.injEq] at hx
    rw [← hx.2]
    exact Int.tmod_nonneg b (hl h)
  | shl =>
    simp only [BinOp.value?, Option.ite_none_left_eq_some, Option.some.injEq] at hx
    rw [← hx.2]
    exact Int.mul_nonneg (hl h) (by positivity)
  | shr =>
    simp only [BinOp.value?, Option.ite_none_left_eq_some, Option.some.injEq] at hx
    rw [← hx.2]
    exact Int.le_shiftRight_of_nonneg (hl h)
  | bitAnd =>
    cases hx
    exact Bits.land_nonneg (h.imp hl hr)
  | bitXor =>
    cases hx
    exact Bits.xor_nonneg (hl h.1) (hr h.2)
  | bitOr =>
    cases hx
    exact Bits.lor_nonneg (hl h.1) (hr h.2)
  | lt | le | gt | ge | eq | ne | and | or =>
    cases hx
    exact truthValue_nonneg _

/-- The sign analysis is right. -/
theorem NeverNegative.nonneg (hρ : ρ.Holds f) {e : Expr} (h : f.NeverNegative e) {x : Int}
    (hx : e.value? ρ = some x) : 0 ≤ x := by
  induction e generalizing x with
  | int v =>
    cases hx
    exact h
  | str s =>
    cases hx
    exact nonneg_of_fits h (hρ.text s)
  | var name =>
    cases hx
    exact nonneg_of_fits h (hρ.var name)
  | binary op l r ihl ihr =>
    simp only [Expr.value?, BinOp.combine?, Option.bind_eq_some_iff, Option.or_eq_some_iff] at hx
    obtain ⟨a,ha,hd | ⟨-,b,hb,hab⟩⟩ := hx
    · cases op <;> simp [BinOp.decided?] at hd
      · exact hd.2.le
      · exact hd.2 ▸ Int.one_nonneg
    · exact nonneg_binary h (ihl · ha) (ihr · hb) hab
  | unary op e ih =>
    obtain rfl : op = .not := h
    obtain ⟨a,-,rfl⟩ := Expr.value?_unary_iff.mp hx
    exact truthValue_nonneg _
  | index array e ih =>
    obtain ⟨i,-,rfl⟩ := Option.map_eq_some_iff.mp hx
    exact nonneg_of_fits h (hρ.element array i)
  | call name args ih =>
    obtain ⟨vs,-,rfl⟩ := Option.map_eq_some_iff.mp hx
    exact nonneg_of_fits h (hρ.call name vs)
  | ternary c y n ihc ihy ihn =>
    obtain ⟨b,-,hx⟩ := Expr.value?_ternary_iff.mp hx
    split at hx
    · exact ihn h.2 hx
    · exact ihy h.1 hx

/-- What is taken for unsigned and no operation is never negative. -/
theorem neverNegative_of_isUnsigned {e : Expr} (hu : f.isUnsigned e = true)
    (he : e.isOperation = false) : f.NeverNegative e := by
  cases e with
  | int v => simpa [isUnsigned, NeverNegative, Int32.le_iff_toInt_le] using hu
  | binary | unary | ternary => cases he
  | str | var | index | call => simpa [isUnsigned, NeverNegative] using hu

/-- A quotient that becomes a shift of the same operand is one by a power of two. -/
theorem Fires.quotient {x r r' : Expr} (h : f.Fires (.binary .div x r) (.binary .shr x r')) :
    f.isUnsigned x = true ∧ ∃ k : Nat, (1 ≤ k ∧ k ≤ 15) ∧
      r = .int (.ofNat (Nat.pow 2 k)) ∧ r' = .int (.ofNat k) := by
  cases rule_of_reduce? h with
  | quotient hk hu => exact ⟨hu,_,hk,rfl,rfl⟩
  | zeroLeft hop => simp at hop

/-- Cutting a quotient by a power of two toward zero and rounding it down agree on numbers that are not
negative and on multiples. -/
theorem tdiv_power_eq_shiftRight_iff (a : Int) (k : Nat) :
    a.tdiv (2 ^ k) = a.shiftRight k ↔ 0 ≤ a ∨ 2 ^ k ∣ a := by
  have hs : a.shiftRight k = a / 2 ^ k := Int.shiftRight_eq_div_pow a k
  have hp : (2 ^ k : Int).sign = 1 := Int.sign_eq_one_of_pos (by positivity)
  rw [hs, Int.tdiv_eq_ediv, hp]
  split <;> simp [*]

theorem value?_quotient {x : Expr} {a : Int} {k : Nat} (hk : 1 ≤ k ∧ k ≤ 15)
    (ha : x.value? ρ = some a) :
    (Expr.binary .div x (.int (.ofNat (Nat.pow 2 k)))).value? ρ = some (a.tdiv (2 ^ k)) ∧
      (Expr.binary .shr x (.int (.ofNat k))).value? ρ = some (a.shiftRight k) := by
  obtain ⟨hp,he⟩ := toInt_power hk
  constructor
  · refine (Expr.value?_binary_iff fun _ => rfl).mpr ⟨a,2 ^ k,ha,congrArg some hp,?_⟩
    simp [BinOp.value?]
  · refine (Expr.value?_binary_iff fun _ => rfl).mpr ⟨a,k,ha,congrArg some he,?_⟩
    simp [BinOp.value?]

/-- Whenever the folder turns a quotient into a shift, the divisor is a power of two, and at every
valuation both have the same value if and only if the operand is not negative or is a multiple of the
divisor. It is not negative if it is no operation, or if its operators and declarations keep it from
that. -/
theorem quotient_is_shift_unless_negative (f : Folder) (e x r r' : Expr)
    (h : f.Rewrites e (.binary .div x r) (.binary .shr x r')) (ρ : Valuation) (hρ : ρ.Holds f)
    (a : Int) (ha : x.value? ρ = some a) :
    ∃ k : Nat, (1 ≤ k ∧ k ≤ 15) ∧ r = .int (.ofNat (Nat.pow 2 k)) ∧ r' = .int (.ofNat k) ∧
      ((Expr.binary .div x r).value? ρ = (Expr.binary .shr x r').value? ρ ↔ 0 ≤ a ∨ 2 ^ k ∣ a) ∧
      (x.isOperation = false ∨ f.NeverNegative x → 0 ≤ a) := by
  obtain ⟨hu,k,hk,rfl,rfl⟩ := h.fires.quotient
  obtain ⟨hdiv,hshr⟩ := value?_quotient hk ha
  refine ⟨k,hk,rfl,rfl,?_,?_⟩
  · rw [hdiv, hshr, Option.some.injEq]
    exact tdiv_power_eq_shiftRight_iff a k
  · rintro (hx | hx)
    · exact (neverNegative_of_isUnsigned hu hx).nonneg hρ ha
    · exact hx.nonneg hρ ha

def byteFolder : Folder where
  domain := .u8
  declared name := if name = "speed" then some .i8 else if name = "coins" then some .u16 else none

def fallingValuation : Valuation where
  var name := if name = "speed" then -2 else if name = "coins" then 1000 else 3
  element array _ := if array = "speed" then -2 else if array = "coins" then 1000 else 3
  call _ _ := 3
  text _ := 3

theorem holds_fallingValuation : fallingValuation.Holds byteFolder := by
  have hname (name : String) :
      ((byteFolder.declared name).getD byteFolder.domain).Fits (fallingValuation.var name) := by
    unfold byteFolder fallingValuation
    dsimp only
    split
    · decide
    · split <;> decide
  have hthree : Domain.u8.Fits 3 := by decide
  exact ⟨hname,fun array _ => hname array,fun _ _ => hthree,fun _ => hthree⟩

private theorem rewrites_quotient {x : Expr} {v k : Int32} (hx : byteFolder.simplify x = x)
    (h : byteFolder.Fires (.binary .div x (.int v)) (.binary .shr x (.int k))) :
    byteFolder.Rewrites (.binary .div x (.int v)) (.binary .div x (.int v)) (.binary .shr x (.int k)) := by
  have hp : byteFolder.prepared (.binary .div x (.int v)) = .binary .div x (.int v) := by
    rw [prepared, hx]
    rfl
  exact .root (by rw [hp]) h

/-- `(coins + (x << 2)) / 4` keeps its value as `(coins + (x << 2)) >> 2`. -/
theorem quotient_is_shift_of_coins :
    let x : Expr := .binary .add (.var "coins") (.binary .shl (.var "x") (.int 2))
    byteFolder.Rewrites (.binary .div x (.int 4)) (.binary .div x (.int 4)) (.binary .shr x (.int 2)) ∧
      fallingValuation.Holds byteFolder ∧ x.value? fallingValuation = some 1012 ∧
      byteFolder.NeverNegative x ∧
      (Expr.binary .div x (.int 4)).value? fallingValuation =
        (Expr.binary .shr x (.int 2)).value? fallingValuation := by
  intro x
  have hx : byteFolder.simplify x = x := by
    have hr : byteFolder.simplify (.binary .shl (.var "x") (.int 2)) = .binary .shl (.var "x") (.int 2) :=
      settle_of_none rfl
    change byteFolder.settle (.binary .add (.var "coins") (byteFolder.simplify _)) = _
    rw [hr]
    exact settle_of_none rfl
  have hrewrites := rewrites_quotient (x := x) (v := 4) (k := 2) hx rfl
  have hvalue : x.value? fallingValuation = some 1012 := by decide
  have hnever : byteFolder.NeverNegative x := ⟨rfl,rfl⟩
  obtain ⟨k,-,-,-,hiff,hnonneg⟩ := quotient_is_shift_unless_negative byteFolder _ x (.int 4) (.int 2)
    hrewrites fallingValuation holds_fallingValuation 1012 hvalue
  exact ⟨hrewrites,holds_fallingValuation,hvalue,hnever,hiff.mpr (.inl (hnonneg (.inr hnever)))⟩

/-- `(speed + 1) / 2` becomes `(speed + 1) >> 1` although the speed is signed: at -1 the quotient is
zero and the shift is not. -/
theorem quotient_of_speed_is_no_shift :
    let x : Expr := .binary .add (.var "speed") (.int 1)
    byteFolder.Rewrites (.binary .div x (.int 2)) (.binary .div x (.int 2)) (.binary .shr x (.int 1)) ∧
      fallingValuation.Holds byteFolder ∧ x.value? fallingValuation = some (-1) ∧
      (Expr.binary .div x (.int 2)).value? fallingValuation = some 0 ∧
      (Expr.binary .shr x (.int 1)).value? fallingValuation = some (-1) := by
  intro x
  have hx : byteFolder.simplify x = x := settle_of_none rfl
  exact ⟨rewrites_quotient hx rfl,holds_fallingValuation,by decide,by decide,by decide⟩

end Folder

end Cartridge
