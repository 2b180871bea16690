import Cartridge.Proofs.Fold.Truth
import Cartridge.Proofs.Game.Valid
import Cartridge.Proofs.Lower.Printed

/-!
Conditions on their way to C. They are folded in the default domain, and checks are put around
subscripts; a check that is read as the subscript it checks changes no value.
-/
namespace Cartridge

/-- A check of a subscript has the value of the subscript. -/
def Valuation.ReadsChecked (ρ : Valuation) : Prop := ∀ i rest, ρ.call "BOUNDS_CHECK" (i :: rest) = i

namespace Lower

open Code (LowerError)
open Cartridge.Expr (IsNamed IsNumeric KeepsQuotients)

variable {s : Scope} {ρ : Valuation}

theorem value?_checkSubscript (hρ : ρ.ReadsChecked) {array : String} {e e' : Expr}
    (h : checkSubscript s array e = .ok e') {i : Int} (hi : e.value? ρ = some i) :
    e'.value? ρ = some i := by
  have hcall (name : String) :
      (Expr.call "BOUNDS_CHECK" [e,.var name]).value? ρ = some i := by
    have hargs : Expr.values? ρ [e,.var name] = some [i,ρ.var name] := by simp [Expr.values?, hi]
    rw [Expr.value?, hargs, Option.map_some, hρ]
  unfold checkSubscript at h
  split at h
  next =>
    cases h
    exact hi
  next =>
    split at h
    next =>
      split at h
      · cases h
      · cases h
        exact hi
    next =>
      split at h
      · cases h
        exact hcall _
      · cases h
        exact hi

/-- Checked subscripts change no value. -/
theorem value?_guardIndices (hρ : ρ.ReadsChecked) {e e' : Expr} (h : guardIndices s e = .ok e')
    {x : Int} (hx : e.value? ρ = some x) : e'.value? ρ = some x := by
  have hargs {args args' : List Expr} (h : guardAll s args = .ok args')
      (ih : ∀ a ∈ args, ∀ {a'}, guardIndices s a = .ok a' → ∀ {x}, a.value? ρ = some x →
        a'.value? ρ = some x) :
      List.Forall₂ (fun a a' => ∀ x, a.value? ρ = some x → a'.value? ρ = some x) args args' := by
    induction args generalizing args' with
    | nil =>
      cases h
      exact .nil
    | cons a args iha =>
      obtain ⟨ha,has⟩ := List.forall_mem_cons.mp ih
      obtain ⟨a',hga,h⟩ := bind_eq_ok h
      obtain ⟨as',hgas,h⟩ := bind_eq_ok h
      cases h
      exact .cons (fun x hx => ha hga hx) (iha hgas has)
  induction e generalizing e' x with
  | int v =>
    cases h
    exact hx
  | str t =>
    cases h
    exact hx
  | var name =>
    cases h
    exact hx
  | binary op l r ihl ihr =>
    obtain ⟨l',hl,h⟩ := bind_eq_ok h
    obtain ⟨r',hr,h⟩ := bind_eq_ok h
    cases h
    exact Folder.value?_binary_congr hx (fun a ha => ⟨a,ihl hl ha,.of_eq rfl⟩)
      fun _ b _ _ hb => ⟨b,ihr hr hb,.of_eq rfl⟩
  | unary op e ih =>
    obtain ⟨e₁,he,h⟩ := bind_eq_ok h
    cases h
    obtain ⟨a,ha,rfl⟩ := Expr.value?_unary_iff.mp hx
    exact Expr.value?_unary_iff.mpr ⟨a,ih he ha,rfl⟩
  | index array e ih =>
    obtain ⟨e₁,he,h⟩ := bind_eq_ok h
    obtain ⟨e₂,hcheck,h⟩ := bind_eq_ok h
    cases h
    obtain ⟨i,hi,rfl⟩ := Option.map_eq_some_iff.mp hx
    exact Option.map_eq_some_iff.mpr ⟨i,value?_checkSubscript hρ hcheck (ih he hi),rfl⟩
  | call name args ih =>
    obtain ⟨args',hguard,h⟩ := bind_eq_ok h
    cases h
    obtain ⟨xs,hxs,rfl⟩ := Option.map_eq_some_iff.mp hx
    refine Option.map_eq_some_iff.mpr ⟨xs,Folder.values?_congr (hargs hguard ?_) hxs,rfl⟩
    exact fun a ha _ hga _ hax => ih a ha hga hax
  | ternary c y n ihc ihy ihn =>
    obtain ⟨c',hc,h⟩ := bind_eq_ok h
    obtain ⟨y',hy,h⟩ := bind_eq_ok h
    obtain ⟨n',hn,h⟩ := bind_eq_ok h
    cases h
    obtain ⟨b,hb,hx⟩ := Expr.value?_ternary_iff.mp hx
    refine Expr.value?_ternary_iff.mpr ⟨b,ihc hc hb,?_⟩
    split at hx
    next hzero =>
      rw [if_pos hzero]
      exact ihn hn hx
    next hzero =>
      rw [if_neg hzero]
      exact ihy hy hx

/-- The text of a condition has one reading, and this is zero exactly when the condition is, at every valuation
at which folding in the default domain changes no number that is used: constants it computes come out exact (or
zero only if they are, where just truth counts), a doubled negation that it drops where a number counts is one of
zero or one, and a quotient it turns into a shift is not one of a negative operand, unless the operand is declared.
No quotient or remainder may stand at the left end of a right factor without parentheses. -/
theorem condition_keeps_truth (s : Scope) (e : Expr) (text : String) (htext : condText s e = .ok text)
    (hnamed : e.Every IsNamed) (hnum : e.Every IsNumeric)
    (hquot : ((s.folder s.options.domain).simplify e).Every KeepsQuotients) (ρ : Valuation)
    (hdeclared : ρ.Respects s.game.declaredDomain?) (hchecked : ρ.ReadsChecked)
    (hkept : Folder.Kept (s.folder s.options.domain) ρ .truth e) (a : Int) (ha : e.value? ρ = some a) :
    ∃ t b, Term.ReadFrom text t ∧ (∀ u, Term.ReadFrom text u → u = t) ∧ t.value? ρ = some b ∧
      (b ≠ 0 ↔ a ≠ 0) := by
  obtain ⟨b,hb,hab⟩ := hkept.yields hdeclared ha
  unfold condText exprText at htext
  cases hguard : guardIndices s ((s.folder s.options.domain).simplify e) with
  | error err =>
    rw [hguard] at htext
    cases htext
  | ok e' =>
    have hvalue := value?_guardIndices hchecked hguard hb
    rw [hguard] at htext
    cases htext
    obtain ⟨-,rfl⟩ := guardIndices_eq_ok_iff.mp hguard
    obtain ⟨t,hread,honly,hright⟩ := isReadRight_guarded (s := s) hnamed hnum hquot
    exact ⟨t,b,hread,honly,hright ρ b hvalue,hab.not.symm⟩

def cave : Scope where
  game := { name := "cave", scalars := [⟨"score",.u16,0⟩,⟨"lives",.u8,3⟩], arrays := [⟨"hp",.u8,4,[]⟩] }
  options := {}

def caveValuation : Valuation where
  var name := if name = "score" then 300 else 2
  element array _ := if array = "score" then 300 else 40
  call _ args := args.headD 0
  text _ := 0

theorem caveValuation_respects : caveValuation.Respects cave.game.declaredDomain? := by
  have hdeclared (name : String) (d : Domain) (h : cave.game.declaredDomain? name = some d) :
      (name = "score" ∧ d = .u16) ∨ (name ≠ "score" ∧ d = .u8) := by
    have h : [("hp",Domain.u8),("lives",.u8),("score",.u16)].lookup name = some d := h
    simp only [List.lookup_cons, List.lookup_nil] at h
    grind
  constructor
  · intro name d h
    obtain ⟨rfl,rfl⟩ | ⟨hname,rfl⟩ := hdeclared name d h
    · decide
    · simp only [caveValuation, if_neg hname]
      decide
  · intro array d h i
    obtain ⟨rfl,rfl⟩ | ⟨hname,rfl⟩ := hdeclared array d h
    · simp only [caveValuation]
      decide
    · simp only [caveValuation, if_neg hname]
      decide

/-- `!!lives && hp[lives] / 2 < 100 + 55` keeps its truth as
`lives && hp[BOUNDS_CHECK(lives, HP_LEN)] >> 1 < 155`. -/
theorem condition_keeps_truth_of_lives :
    let lives : Expr := .var "lives"
    let e : Expr := .binary .and (.unary .not (.unary .not lives))
      (.binary .lt (.binary .div (.index "hp" lives) (.int 2)) (.binary .add (.int 100) (.int 55)))
    let e' : Expr := .binary .and lives
      (.binary .lt (.binary .shr (.index "hp" (.call "BOUNDS_CHECK" [lives,.var "HP_LEN"])) (.int 1))
        (.int 155))
    condText cave e = .ok e'.text ∧ e.Every IsNamed ∧ e.Every IsNumeric ∧
      ((cave.folder cave.options.domain).simplify e).Every KeepsQuotients ∧
      caveValuation.Respects cave.game.declaredDomain? ∧ caveValuation.ReadsChecked ∧
      Folder.Kept (cave.folder cave.options.domain) caveValuation .truth e ∧
      e.value? caveValuation = some 1 ∧
      ∃ t b, Term.ReadFrom e'.text t ∧ t.value? caveValuation = some b ∧ b ≠ 0 := by
  intro lives e e'
  have hnot : (cave.folder .u8).simplify (.unary .not lives) = .unary .not lives :=
    Folder.simplify_of_none rfl
  have htwice : (cave.folder .u8).simplify (.unary .not (.unary .not lives)) = lives := by
    refine Folder.Fires.simplify_eq ?_
    rw [Folder.prepared, hnot]
    rfl
  have hhalf : (cave.folder .u8).simplify (.binary .div (.index "hp" lives) (.int 2)) =
      .binary .shr (.index "hp" lives) (.int 1) := Folder.Fires.simplify_eq rfl
  have hsum : (cave.folder .u8).simplify (.binary .add (.int 100) (.int 55)) = .int 155 :=
    Folder.Fires.simplify_eq rfl
  have hless : (cave.folder .u8).simplify
      (.binary .lt (.binary .div (.index "hp" lives) (.int 2)) (.binary .add (.int 100) (.int 55))) =
        .binary .lt (.binary .shr (.index "hp" lives) (.int 1)) (.int 155) := by
    refine (Folder.simplify_of_none ?_).trans ?_ <;> rw [Folder.prepared, hhalf, hsum]
    rfl
  have hfold : (cave.folder .u8).simplify e = .binary .and lives
      (.binary .lt (.binary .shr (.index "hp" lives) (.int 1)) (.int 155)) := by
    refine (Folder.simplify_of_none ?_).trans ?_ <;> rw [Folder.prepared, htwice, hless]
    rfl
  have htext : condText cave e = .ok e'.text := by
    rw [condText, exprText, show cave.options.domain = .u8 from rfl, hfold]
    rfl
  have hkept : Folder.Kept (cave.folder .u8) caveValuation .truth e := by
    have hsumKept : (cave.folder .u8).LiteralsKept .number .add (.int 100) (.int 55) := by
      intro a b v x ha hb hv hx
      cases ha
      cases hb
      cases hv
      cases hx
      exact .of_eq (by decide)
    have hhalfKept : (cave.folder .u8).QuotientKept caveValuation .div (.index "hp" lives) (.int 2) := by
      intro k a _ _ _ hd
      cases hd
    have hlives (a : Int32) : lives ≠ .int a := by simp [lives]
    simp only [e, Folder.Kept, hnot, htwice, hhalf, hsum, hless]
    refine ⟨⟨⟨trivial,Folder.literalKept_of_ne hlives,Folder.negationKept_truth _ _⟩,
      Folder.literalKept_of_ne (by simp),Folder.negationKept_truth _ _⟩,fun _ _ _ => ?_,
      Folder.literalsKept_of_ne hlives,Folder.quotientKept_of_ne (by simp)⟩
    refine ⟨⟨trivial,fun _ _ _ => trivial,Folder.literalsKept_of_ne ?_,hhalfKept⟩,
      fun _ _ _ => ⟨trivial,fun _ _ _ => trivial,hsumKept,Folder.quotientKept_of_ne (by simp)⟩,
      Folder.literalsKept_of_ne (by simp),Folder.quotientKept_of_ne (by simp)⟩
    intro a h
    cases h
  have hnamed : e.Every IsNamed := by decide
  have hnum : e.Every IsNumeric := by decide
  have hquot : ((cave.folder cave.options.domain).simplify e).Every KeepsQuotients := by
    rw [show cave.options.domain = .u8 from rfl, hfold]
    decide
  have hvalue : e.value? caveValuation = some 1 := by decide
  obtain ⟨t,b,hread,-,hb,hiff⟩ := condition_keeps_truth cave e e'.text htext hnamed hnum hquot caveValuation
    caveValuation_respects (fun _ _ => rfl) hkept 1 hvalue
  exact ⟨htext,hnamed,hnum,hquot,caveValuation_respects,fun _ _ => rfl,hkept,hvalue,t,b,hread,hb,
    hiff.mpr one_ne_zero⟩

/-- `score == 200 + 100` is emitted as `score == 44`, which is false at a score of three hundred. -/
theorem condition_of_score_turns :
    let e : Expr := .binary .eq (.var "score") (.binary .add (.int 200) (.int 100))
    condText cave e = .ok "score == 44" ∧ caveValuation.Respects cave.game.declaredDomain? ∧
      caveValuation.ReadsChecked ∧ e.value? caveValuation = some 1 ∧
      ∃ t, Term.ReadFrom "score == 44" t ∧ (∀ u, Term.ReadFrom "score == 44" u → u = t) ∧
        t.value? caveValuation = some 0 := by
  intro e
  let e' : Expr := .binary .eq (.var "score") (.int 44)
  have hsum : (cave.folder .u8).simplify (.binary .add (.int 200) (.int 100)) = .int 44 :=
    Folder.Fires.simplify_eq rfl
  have hfold : (cave.folder .u8).simplify e = e' := by
    refine (Folder.simplify_of_none ?_).trans ?_ <;> rw [Folder.prepared, hsum] <;> rfl
  have htext : e'.text = "score == 44" := by decide
  have hcond : condText cave e = .ok e'.text :=
    congrArg (fun e => (guardIndices cave e).map Expr.text) hfold
  have hread : Term.ReadFrom e'.text e'.reading := Expr.readFrom_text (by decide)
  rw [← htext]
  exact ⟨hcond,caveValuation_respects,fun _ _ => rfl,by decide,e'.reading,hread,
    fun u hu => hu.unique hread,by decide⟩

end Lower

end Cartridge
