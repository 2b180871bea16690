import Cartridge.Program.Preamble
import Cartridge.Proofs.Fold.Every
import Cartridge.Proofs.Lower.Condition
import Cartridge.Proofs.Lower.Resolve
import Cartridge.Proofs.Lower.Subscript

/-!
Calls in checks. A check evaluates its subscript twice where the code is built for debugging, so a call
in it is made twice. Checks are put around subscripts as they are, whether these hold calls or not, and
folding takes calls away but adds none, so it is told by the source which checks hold calls.
-/
namespace Cartridge

namespace Expr

/-- Calls nothing, unless it is a check. -/
def CallsNothing : Expr → Prop
  | .call name _ => name = "BOUNDS_CHECK"
  | _ => True

def IsQuiet (e : Expr) : Prop := e.Every CallsNothing

def ChecksQuietly : Expr → Prop
  | .call name (e :: _) => name = "BOUNDS_CHECK" → e.IsQuiet
  | _ => True

/-- The subscript of a declared array is quiet, and so is the one in a check. -/
def AddressesQuietly (g : Game) : Expr → Prop
  | .index array e => (g.arrayLength? array).isSome → e.IsQuiet
  | e => e.ChecksQuietly

end Expr

namespace Folder

theorem keeps_callsNothing (f : Folder) : f.Keeps Expr.CallsNothing where
  int _ := trivial
  binary _ _ _ := trivial
  unary _ _ := trivial
  index _ _ := id
  call _ _ := id
  ternary _ _ _ := trivial

/-- Folding a quiet subscript leaves a quiet one. -/
theorem keeps_addressesQuietly (f : Folder) (g : Game) : f.Keeps (Expr.AddressesQuietly g) where
  int _ := trivial
  binary _ _ _ := trivial
  unary _ _ := trivial
  index _ _ h hdeclared := simplify_every (keeps_callsNothing f) (h hdeclared)
  call _ args h := by
    cases args with
    | nil => trivial
    | cons e args => exact fun hname => simplify_every (keeps_callsNothing f) (h hname)
  ternary _ _ _ := trivial

end Folder

namespace Lower

open Code Code.Emission Cartridge.Expr

variable {s : Scope} {g : Game}

theorem isQuiet_withCheck (array : String) (e : Expr) : (withCheck g array e).IsQuiet ↔ e.IsQuiet := by
  unfold withCheck
  split
  · simp [IsQuiet, Expr.Every, EveryOf, CallsNothing]
  · rfl

theorem isQuiet_mapSubscripts (e : Expr) : (e.mapSubscripts (withCheck g)).IsQuiet ↔ e.IsQuiet := by
  apply every_mapSubscripts_iff
  · intro array e
    exact and_congr_right' (isQuiet_withCheck array _)
  · intro e hindex
    cases e with
    | index array i => exact absurd rfl (hindex array i)
    | _ => rfl

theorem every_withCheck (array : String) (e : Expr) : (withCheck g array e).Every ChecksQuietly ↔
    ((g.arrayLength? array).isSome → e.IsQuiet) ∧ e.Every ChecksQuietly := by
  unfold withCheck
  split
  next h => simp [h.1, Expr.Every, EveryOf, ChecksQuietly]
  next h =>
    refine (and_iff_right fun hdeclared => ?_).symm
    cases hi : e.intValue? with
    | none => exact absurd ⟨hdeclared,hi⟩ h
    | some i =>
      rw [intValue?_eq_some.mp hi]
      trivial

/-- Checks around the subscripts of an expression hold no calls if and only if these hold none. -/
theorem every_checked_iff (e : Expr) :
    (e.mapSubscripts (withCheck g)).Every ChecksQuietly ↔ e.Every (AddressesQuietly g) := by
  apply every_mapSubscripts_iff
  · intro array e
    refine (and_iff_right trivial).trans ((every_withCheck array _).trans (and_congr_left' ?_))
    exact imp_congr_right fun _ => isQuiet_mapSubscripts e
  · intro e hindex
    cases e with
    | index array i => exact absurd rfl (hindex array i)
    | call name args =>
      cases args with
      | nil => rfl
      | cons i args => exact imp_congr_right fun _ => isQuiet_mapSubscripts i
    | _ => rfl

theorem every_of_guardIndices (hchecks : s.options.boundsChecks = true) {e e' : Expr}
    (h : guardIndices s e = .ok e') : e'.Every ChecksQuietly ↔ e.Every (AddressesQuietly s.game) := by
  rw [(guardIndices_eq_ok_iff.mp h).2, guarded, if_pos hchecks, every_checked_iff]

theorem every_of_guardAll (hchecks : s.options.boundsChecks = true) {es es' : List Expr}
    (h : guardAll s es = .ok es') :
    (∀ e ∈ es', e.Every ChecksQuietly) ↔ ∀ e ∈ es, e.Every (AddressesQuietly s.game) := by
  induction es generalizing es' with
  | nil =>
    cases h
    exact iff_of_true nofun nofun
  | cons e es ih =>
    rw [guardAll] at h
    obtain ⟨e',he,h⟩ := bind_eq_ok h
    obtain ⟨rest,hrest,h⟩ := bind_eq_ok h
    cases h
    rw [List.forall_mem_cons, List.forall_mem_cons, every_of_guardIndices hchecks he, ih hrest]

theorem every_folded {stmts : List Stmt} (h : ∀ e ∈ exprs s stmts, e.Every (AddressesQuietly s.game)) :
    ∀ e ∈ folded s stmts, e.Every (AddressesQuietly s.game) := by
  refine List.forall_mem_map.mpr fun p hp => Folder.simplify_every (Folder.keeps_addressesQuietly _ _) ?_
  exact List.forall_mem_map.mp h p hp

/-- Where checks are asked for, the code of an expression and that of a statement hold a check with a
call in it, other than to a check, if and only if a subscript of a declared array holds such a call after
folding, or the author has written such a check. None is there if there is none before folding. -/
theorem checks_hold_calls_iff (s : Scope) (hchecks : s.options.boundsChecks = true) :
    (∀ d e text, exprText s d e = .ok text → ∃ e', resolveExpr s d e = .ok e' ∧ text = e'.text ∧
        (e'.Every ChecksQuietly ↔ ((s.folder d).simplify e).Every (AddressesQuietly s.game)) ∧
        (e.Every (AddressesQuietly s.game) → e'.Every ChecksQuietly)) ∧
      ∀ a, (stmt s a).Ends → ∃ a', resolve s a = .ok a' ∧ stmt s a = write s a' ∧
        ((∀ e ∈ exprs s a'.walk, e.Every ChecksQuietly) ↔
          ∀ e ∈ folded s a.walk, e.Every (AddressesQuietly s.game)) ∧
        ((∀ e ∈ exprs s a.walk, e.Every (AddressesQuietly s.game)) →
          ∀ e ∈ exprs s a'.walk, e.Every ChecksQuietly) := by
  constructor
  · intro d e text h
    obtain ⟨e',he,htext⟩ := resolve_of_exprText h
    have hiff := every_of_guardIndices hchecks he
    refine ⟨e',he,htext.symm,hiff,fun hquiet => hiff.mpr ?_⟩
    exact Folder.simplify_every (Folder.keeps_addressesQuietly _ _) hquiet
  · intro a hends
    obtain ⟨a',hres,hcode⟩ := isWritten_stmt a hends
    have hiff := every_of_guardAll hchecks (guardAll_of_resolve hres)
    exact ⟨a',hres,hcode,hiff,fun hquiet => hiff.mpr (every_folded hquiet)⟩

/-- The element after the one that an element numbers is read and written with two checks, one in the
other, and with no call but these. -/
theorem nested_checks_hold_no_call :
    let e : Expr := .index "hp" (.binary .add (.index "hp" (.var "lives")) (.int 1))
    let a : Stmt := .assignIndex "hp" (.index "hp" (.var "lives")) .set e none
    cave.options.boundsChecks = true ∧
      exprText cave .u8 e = .ok "hp[BOUNDS_CHECK(hp[BOUNDS_CHECK(lives, HP_LEN)] + 1, HP_LEN)]" ∧
      (stmt cave a).Ends ∧ (∃ e', resolveExpr cave .u8 e = .ok e' ∧ e'.Every ChecksQuietly) ∧
      ∃ a', resolve cave a = .ok a' ∧ ∀ e ∈ exprs cave a'.walk, e.Every ChecksQuietly := by
  intro e a
  have hnext : (cave.folder .u8).simplify (.binary .add (.index "hp" (.var "lives")) (.int 1)) =
      .binary .add (.index "hp" (.var "lives")) (.int 1) := Folder.simplify_of_none rfl
  have htext : exprText cave .u8 e =
      .ok "hp[BOUNDS_CHECK(hp[BOUNDS_CHECK(lives, HP_LEN)] + 1, HP_LEN)]" := by
    rw [exprText, Folder.simplify, hnext]
    rfl
  have hsub : subscriptText cave "hp" (.index "hp" (.var "lives")) =
      .ok "BOUNDS_CHECK(hp[BOUNDS_CHECK(lives, HP_LEN)], HP_LEN)" := rfl
  have hends : (stmt cave a).Ends := by
    rw [stmt, hsub, show cave.domainOf "hp" = .u8 from rfl, htext, ofExcept_ok_bind, ofExcept_ok_bind]
    simp [origin]
  have hinner : (Expr.index "hp" (.var "lives")).Every (AddressesQuietly cave.game) :=
    ⟨fun _ => trivial,trivial⟩
  have hquiet : e.Every (AddressesQuietly cave.game) :=
    ⟨fun _ => ⟨trivial,⟨trivial,trivial⟩,trivial⟩,trivial,hinner,trivial⟩
  obtain ⟨hexpr,hstmt⟩ := checks_hold_calls_iff cave rfl
  obtain ⟨e',he,-,-,hleast⟩ := hexpr .u8 e _ htext
  obtain ⟨a',hres,-,-,hleastOf⟩ := hstmt a hends
  refine ⟨rfl,htext,hends,⟨e',he,hleast hquiet⟩,a',hres,hleastOf ?_⟩
  have hwritten : (Expr.index "hp" (.index "hp" (.var "lives"))).Every (AddressesQuietly cave.game) :=
    ⟨fun _ => ⟨trivial,trivial⟩,hinner⟩
  exact List.forall_mem_cons.mpr ⟨hwritten,List.forall_mem_singleton.mpr hquiet⟩

/-- A check is put around a call, and the check names its subscript twice. -/
theorem check_repeats_next :
    let e : Expr := .index "hp" (.call "next" [])
    let e' : Expr := .index "hp" (.call "BOUNDS_CHECK" [.call "next" [],.var "HP_LEN"])
    cave.options.boundsChecks = true ∧ resolveExpr cave .u8 e = .ok e' ∧
      exprText cave .u8 e = .ok "hp[BOUNDS_CHECK(next(), HP_LEN)]" ∧ ¬e'.Every ChecksQuietly ∧
      .mark (.line "#define BOUNDS_CHECK(i, len) ((i) < (len) ? (i) : (bounds_fail(), 0))") ∈
        Program.Preamble.boundsCheck.items := by
  intro e e'
  refine ⟨rfl,rfl,rfl,?_,?_⟩
  · rintro ⟨-,hcheck,-⟩
    have hnext : "next" = "BOUNDS_CHECK" := (hcheck rfl).1
    simp at hnext
  · decide

end Lower

end Cartridge
