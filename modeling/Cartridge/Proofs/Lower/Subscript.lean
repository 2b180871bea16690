import Cartridge.Lower.Expr
import Cartridge.Proofs.Expr.Every

/-!
Subscripts and their checks. Checking an expression either ends at the first literal subscript that lies
outside its array, or puts a check around every other subscript of a declared array and changes nothing
else.
-/
namespace Cartridge

namespace Expr

mutual

/-- The subscripts in an expression with the arrays they belong to, inner ones before outer ones. -/
def subscripts : Expr → List (String × Expr)
  | .int _ | .str _ | .var _ => []
  | .binary _ l r => l.subscripts ++ r.subscripts
  | .unary _ e => e.subscripts
  | .index array e => e.subscripts ++ [(array,e)]
  | .call _ args => subscriptsOf args
  | .ternary c y n => c.subscripts ++ (y.subscripts ++ n.subscripts)

def subscriptsOf : List Expr → List (String × Expr)
  | [] => []
  | e :: es => e.subscripts ++ subscriptsOf es

end

mutual

/-- The expression with `h array i` in the place of each subscript `i`, inner subscripts first. -/
def mapSubscripts (h : String → Expr → Expr) : Expr → Expr
  | .int v => .int v
  | .str s => .str s
  | .var name => .var name
  | .binary op l r => .binary op (mapSubscripts h l) (mapSubscripts h r)
  | .unary op e => .unary op (mapSubscripts h e)
  | .index array e => .index array (h array (mapSubscripts h e))
  | .call name args => .call name (mapSubscriptsOf h args)
  | .ternary c y n => .ternary (mapSubscripts h c) (mapSubscripts h y) (mapSubscripts h n)

def mapSubscriptsOf (h : String → Expr → Expr) : List Expr → List Expr
  | [] => []
  | e :: es => mapSubscripts h e :: mapSubscriptsOf h es

end

variable {h : String → Expr → Expr}

theorem mapSubscriptsOf_eq_map (args : List Expr) :
    mapSubscriptsOf h args = args.map (mapSubscripts h) := by
  induction args with
  | nil => rfl
  | cons e args ih => rw [mapSubscriptsOf, ih, List.map_cons]

/-- Replacing every subscript by itself does nothing. -/
theorem mapSubscripts_id (e : Expr) : e.mapSubscripts (fun _ i => i) = e := by
  induction e with
  | int v | str s | var name => rfl
  | binary op l r ihl ihr => rw [mapSubscripts, ihl, ihr]
  | unary op e ih => rw [mapSubscripts, ih]
  | index array e ih => rw [mapSubscripts, ih]
  | call name args ih => rw [mapSubscripts, mapSubscriptsOf_eq_map, List.map_congr_left ih, List.map_id']
  | ternary c y n ihc ihy ihn => rw [mapSubscripts, ihc, ihy, ihn]

@[simp] theorem intValue?_mapSubscripts (e : Expr) : (e.mapSubscripts h).intValue? = e.intValue? := by
  cases e <;> rfl

theorem intValue?_eq_some {e : Expr} {i : Int32} : e.intValue? = some i ↔ e = .int i := by
  cases e <;> simp [intValue?]

/-- What holds of all parts of an expression with other subscripts, told part by part. -/
theorem every_mapSubscripts_iff {p q : Expr → Prop} {h : String → Expr → Expr}
    (hindex : ∀ array e, (Expr.index array (h array (e.mapSubscripts h))).Every p ↔
      q (.index array e) ∧ (e.mapSubscripts h).Every p)
    (hroot : ∀ e, (∀ array i, e ≠ .index array i) → (p (e.mapSubscripts h) ↔ q e)) (e : Expr) :
    (e.mapSubscripts h).Every p ↔ e.Every q := by
  induction e with
  | int v => exact hroot (.int v) nofun
  | str s => exact hroot (.str s) nofun
  | var name => exact hroot (.var name) nofun
  | binary op l r ihl ihr => exact and_congr (hroot (.binary op l r) nofun) (and_congr ihl ihr)
  | unary op e ih => exact and_congr (hroot (.unary op e) nofun) ih
  | index array e ih => exact (hindex array e).trans (and_congr_right' ih)
  | call name args ih =>
    refine and_congr (hroot (.call name args) nofun) ?_
    rw [everyOf_iff, everyOf_iff, mapSubscriptsOf_eq_map, List.forall_mem_map]
    exact forall₂_congr ih
  | ternary c y n ihc ihy ihn =>
    exact and_congr (hroot (.ternary c y n) nofun) (and_congr ihc (and_congr ihy ihn))

end Expr

namespace Lower

open Code (LowerError)

variable {ε α β : Type} {s : Scope} {g : Game}

def verdict (err : Option ε) (a : α) : Except ε α := err.elim (.ok a) .error

theorem verdict_bind {x y : Option ε} {a : α} {b : β} {f : α → Except ε β} (h : f a = verdict y b) :
    verdict x a >>= f = verdict (x.or y) b := by
  cases x with
  | none => exact h
  | some err => rfl

theorem verdict_map {x : Option ε} {a : α} (f : α → β) :
    (verdict x a >>= fun a => pure (f a)) = verdict x (f a) := by
  cases x <;> rfl

def outside? (g : Game) (p : String × Expr) : Option LowerError :=
  match g.arrayLength? p.1, p.2.intValue? with
  | some length, some i =>
    if i.toInt < 0 ∨ (length.toNat : Int) ≤ i.toInt then some (.indexOutOfBounds p.1 i length) else none
  | _, _ => none

/-- A subscript of a declared array in a check, unless it is a literal. -/
def withCheck (g : Game) (array : String) (e : Expr) : Expr :=
  if (g.arrayLength? array).isSome ∧ e.intValue? = none then
    .call "BOUNDS_CHECK" [e,.var (Code.Name.length array)]
  else e

def guarded (s : Scope) (e : Expr) : Expr :=
  if s.options.boundsChecks then e.mapSubscripts (withCheck s.game) else e

theorem guarded_eq_map (s : Scope) (e : Expr) : guarded s e =
    e.mapSubscripts fun array i => if s.options.boundsChecks then withCheck s.game array i else i := by
  unfold guarded
  split
  · rfl
  · rw [Expr.mapSubscripts_id]

theorem checkSubscript_eq (array : String) (e : Expr) : checkSubscript s array e =
    verdict (outside? s.game (array,e))
      (if s.options.boundsChecks then withCheck s.game array e else e) := by
  unfold checkSubscript outside? withCheck
  cases s.game.arrayLength? array with
  | none => simp [verdict]
  | some length =>
    cases e.intValue? with
    | some i =>
      simp only [verdict]
      split <;> simp
    | none =>
      simp only [verdict]
      split <;> simp

/-- Checking ends at the first literal outside its array, or else adds the checks. -/
theorem guardIndices_eq (e : Expr) :
    guardIndices s e = verdict (e.subscripts.findSome? (outside? s.game)) (guarded s e) := by
  rw [guarded_eq_map]
  generalize hh : (fun array i => if s.options.boundsChecks then withCheck s.game array i else i) = h
  induction e with
  | int v | str t | var name => rfl
  | binary op l r ihl ihr =>
    rw [guardIndices, ihl, ihr, Expr.subscripts, List.findSome?_append]
    exact verdict_bind (verdict_map (Expr.binary op (l.mapSubscripts h)))
  | unary op e ih =>
    rw [guardIndices, ih]
    exact verdict_map (Expr.unary op)
  | index array e ih =>
    have hcheck := checkSubscript_eq (s := s) array (e.mapSubscripts h)
    have houtside : outside? s.game (array,e.mapSubscripts h) = outside? s.game (array,e) := by
      simp [outside?]
    rw [houtside, congrFun (congrFun hh array) (e.mapSubscripts h)] at hcheck
    rw [guardIndices, ih, Expr.subscripts, List.findSome?_append]
    refine verdict_bind ?_
    rw [hcheck, List.findSome?_singleton, Expr.mapSubscripts]
    exact verdict_map (Expr.index array)
  | call name args ih =>
    have hargs : guardAll s args =
        verdict ((Expr.subscriptsOf args).findSome? (outside? s.game)) (Expr.mapSubscriptsOf h args) := by
      induction args with
      | nil => rfl
      | cons a args iha =>
        obtain ⟨ha,hargs⟩ := List.forall_mem_cons.mp ih
        rw [guardAll, ha, iha hargs, Expr.subscriptsOf, List.findSome?_append]
        exact verdict_bind (verdict_map (a.mapSubscripts h :: ·))
    rw [guardIndices, hargs]
    exact verdict_map (Expr.call name)
  | ternary c y n ihc ihy ihn =>
    rw [guardIndices, ihc, ihy, ihn, Expr.subscripts, List.findSome?_append, List.findSome?_append]
    exact verdict_bind (verdict_bind (verdict_map (Expr.ternary (c.mapSubscripts h) (y.mapSubscripts h))))

/-- An element of a declared array is addressed by a literal that is negative or too large. -/
structure LiesOutside (g : Game) (e : Expr) (array : String) (i : Int32) (length : UInt16) : Prop where
  mem : (array,.int i) ∈ e.subscripts
  declared : g.arrayLength? array = some length
  outside : i.toInt < 0 ∨ (length.toNat : Int) ≤ i.toInt

theorem outside?_eq_some {array : String} {e : Expr} {err : LowerError} :
    outside? g (array,e) = some err ↔ ∃ i length, e = .int i ∧ g.arrayLength? array = some length ∧
      (i.toInt < 0 ∨ (length.toNat : Int) ≤ i.toInt) ∧ err = .indexOutOfBounds array i length := by
  unfold outside?
  constructor
  · intro h
    split at h
    next length i hlength hi =>
      obtain ⟨hout,h⟩ := Option.ite_none_right_eq_some.mp h
      cases h
      exact ⟨i,length,Expr.intValue?_eq_some.mp hi,hlength,hout,rfl⟩
    next => cases h
  · rintro ⟨i,length,rfl,hlength,hout,rfl⟩
    simp only [hlength, Expr.intValue?, if_pos hout]

/-- An expression is only refused for a literal that lies outside its array. -/
theorem liesOutside_of_error {e : Expr} {err : LowerError} (h : guardIndices s e = .error err) :
    ∃ array i length, err = .indexOutOfBounds array i length ∧ LiesOutside s.game e array i length := by
  rw [guardIndices_eq] at h
  cases hfirst : e.subscripts.findSome? (outside? s.game) with
  | none =>
    rw [hfirst] at h
    cases h
  | some found =>
    rw [hfirst] at h
    cases h
    obtain ⟨⟨array,sub⟩,hmem,herr⟩ := List.exists_of_findSome?_eq_some hfirst
    obtain ⟨i,length,rfl,hlength,hout,rfl⟩ := outside?_eq_some.mp herr
    exact ⟨array,i,length,rfl,hmem,hlength,hout⟩

theorem guardIndices_eq_ok_iff {e e' : Expr} : guardIndices s e = .ok e' ↔
    (¬∃ array i length, LiesOutside s.game e array i length) ∧ e' = guarded s e := by
  have hnone : e.subscripts.findSome? (outside? s.game) = none ↔
      ¬∃ array i length, LiesOutside s.game e array i length := by
    rw [List.findSome?_eq_none_iff]
    constructor
    · rintro h ⟨array,i,length,hmem,hlength,hout⟩
      have herr := outside?_eq_some.mpr ⟨i,length,rfl,hlength,hout,rfl⟩
      rw [h _ hmem] at herr
      cases herr
    · rintro h ⟨array,sub⟩ hmem
      cases herr : outside? s.game (array,sub) with
      | none => rfl
      | some err =>
        obtain ⟨i,length,rfl,hlength,hout,-⟩ := outside?_eq_some.mp herr
        exact absurd ⟨array,i,length,hmem,hlength,hout⟩ h
  rw [guardIndices_eq, ← hnone]
  cases e.subscripts.findSome? (outside? s.game) with
  | none => simp [verdict, eq_comm]
  | some err => simp [verdict]

/-- An expression is refused if and only if a literal subscript of a declared array lies outside the
array. Otherwise every subscript of a declared array that is no literal stands in a check, if checks
are asked for, and nothing else is changed. -/
theorem guardIndices_exact (s : Scope) (e : Expr) :
    ((∃ array i length, guardIndices s e = .error (.indexOutOfBounds array i length)) ↔
        ∃ array i length, LiesOutside s.game e array i length) ∧
      (guardIndices s e =
          .ok (if s.options.boundsChecks then e.mapSubscripts (withCheck s.game) else e) ↔
        ¬∃ array i length, LiesOutside s.game e array i length) := by
  constructor
  · constructor
    · rintro ⟨array,i,length,h⟩
      obtain ⟨_,_,_,-,hout⟩ := liesOutside_of_error h
      exact ⟨_,_,_,hout⟩
    · intro hout
      cases h : guardIndices s e with
      | ok e' => exact absurd hout (guardIndices_eq_ok_iff.mp h).1
      | error err =>
        obtain ⟨array,i,length,rfl,-⟩ := liesOutside_of_error h
        exact ⟨array,i,length,rfl⟩
  · exact guardIndices_eq_ok_iff.trans (and_iff_left rfl)

end Lower

end Cartridge
