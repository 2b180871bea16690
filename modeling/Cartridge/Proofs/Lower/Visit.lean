import Cartridge.Proofs.Code.Visit
import Cartridge.Proofs.Lower.Stmt

/-!
Lowering visits what a walk visits. Chains of conditionals are written without nesting, and still places
and problems are noted in the order of the walk, and every block that is opened is closed.
-/
namespace Cartridge

namespace Stmt

def unknownScene? (s : Lower.Scope) (current : Code.Section) : Stmt → Option Diagnostic
  | .changeScene scene loc =>
    match s.game.sceneIndex? scene with
    | some _ => none
    | none => some ⟨.unknownScene,.error,current.name,s!"unknown scene '{scene}'",loc⟩
  | _ => none

theorem filterMap_location_singleton (a : Stmt) : [a].filterMap location = a.location.toList := by
  cases h : a.location <;> simp [h]

theorem walk_cond (test : Expr) (yes : List Stmt) (no : Option (List Stmt)) (loc : Option Location) :
    (cond test yes no loc).walk = .cond test yes no loc :: (walkAll yes ++ walkAll (no.getD [])) := by
  cases no <;> simp [walk, walkAll]

end Stmt

namespace Lower

open Code Code.Emission

variable {s : Scope}

def VisitsAll (s : Scope) (before after : Nat) (visited : List Stmt) (m : Emission Unit) : Prop :=
  m.Visits before after (visited.filterMap Stmt.location)
    fun current => visited.filterMap (Stmt.unknownScene? s current)

variable {k l n : Nat} {as bs : List Stmt} {m : Emission Unit} {f : Unit → Emission Unit}

theorem visitsAll_nil (hm : m.Visits k l [] fun _ => []) : VisitsAll s k l [] m := hm

namespace VisitsAll

theorem bind (hm : VisitsAll s k l as m) (hf : VisitsAll s l n bs (f ())) :
    VisitsAll s k n (as ++ bs) (m >>= f) := by
  simpa only [VisitsAll, List.filterMap_append] using Visits.bind hm hf

/-- What notes nothing may stand in front. -/
theorem after (hf : VisitsAll s l n bs (f ())) (hm : m.Visits k l [] fun _ => []) :
    VisitsAll s k n bs (m >>= f) := (visitsAll_nil hm).bind hf

theorem ofExcept_bind {α : Type} {r : Except LowerError α} {f : α → Emission Unit}
    (hf : ∀ a, VisitsAll s k n as (f a)) : VisitsAll s k n as (ofExcept r >>= f) :=
  Visits.ofExcept_bind hf

theorem inside (hm : VisitsAll s k l as m) (n : Nat) : VisitsAll s (n + k) (n + l) as m :=
  Visits.inside hm n

/-- The place of a statement without a problem, and what is noted for those inside. -/
theorem origin {a : Stmt} (hf : VisitsAll s k l as (f ()))
    (ha : ∀ current, a.unknownScene? s current = none) :
    VisitsAll s k l (a :: as) (Emission.origin a.location >>= f) := by
  have hplace : VisitsAll s 0 0 [a] (Emission.origin a.location) := by
    simpa [VisitsAll, Stmt.filterMap_location_singleton, ha] using visits_origin a.location
  exact (hplace.inside k).bind hf

theorem single {a : Stmt} (hf : (f ()).Visits 0 0 [] fun _ => [])
    (ha : ∀ current, a.unknownScene? s current = none) :
    VisitsAll s 0 0 [a] (Emission.origin a.location >>= f) := (visitsAll_nil hf).origin ha

/-- Statements inside braces. -/
theorem braced (hm : VisitsAll s 0 0 as m) (header : String) :
    VisitsAll s 0 0 as (do Emission.block header; m; close) := by
  have hclosed := (hm.inside 1).bind (f := fun _ => close) (visitsAll_nil visits_close)
  rw [List.append_nil] at hclosed
  exact hclosed.after (visits_block header)

theorem block {stmts : List Stmt} (h : ∀ a ∈ stmts, VisitsAll s 0 0 a.walk (stmt s a)) :
    VisitsAll s 0 0 (Stmt.walkAll stmts) (block s stmts) := by
  induction stmts with
  | nil => exact visits_pure
  | cons a stmts ih =>
    obtain ⟨ha,hstmts⟩ := List.forall_mem_cons.mp h
    exact ha.bind (ih hstmts)

end VisitsAll

/-- A statement leaves the indentation as it is. A branch begins inside a block, and goes out of it at
times. -/
private theorem visitsAll_all :
    (∀ a, VisitsAll s 0 0 a.walk (stmt s a)) ∧
      ∀ no, VisitsAll s 1 1 (Stmt.walkAll (no.getD [])) (branch s no) := by
  apply Lower.induction
  case assign =>
    intro target op value loc
    rw [stmt]
    exact .single (.ofExcept_bind fun _ => visits_line _) fun _ => rfl
  case cond =>
    intro test yes no loc hyes hno
    rw [stmt, Stmt.walk_cond]
    refine VisitsAll.origin (a := .cond test yes no loc) (.ofExcept_bind fun _ => ?_) fun _ => rfl
    have hclosed := hno.bind (f := fun _ => close) (visitsAll_nil visits_close)
    rw [List.append_nil] at hclosed
    exact (((VisitsAll.block hyes).inside 1).bind hclosed).after (visits_block _)
  case loop =>
    intro test body loc hbody
    rw [stmt, Stmt.walk]
    refine VisitsAll.origin (a := .loop test body loc) (.ofExcept_bind fun _ => ?_) fun _ => rfl
    exact VisitsAll.braced (.block hbody) _
  case range =>
    intro counter first last body loc hbody
    rw [stmt, Stmt.walk]
    refine VisitsAll.origin (a := .range counter first last body loc) ?_ fun _ => rfl
    exact VisitsAll.braced (.block hbody) _
  case call =>
    intro name args loc
    rw [stmt]
    exact .single (.ofExcept_bind fun _ => visits_line _) fun _ => rfl
  case changeScene =>
    intro scene loc
    rw [stmt]
    cases h : s.game.sceneIndex? scene with
    | some i =>
      have hnone current : (Stmt.changeScene scene loc).unknownScene? s current = none := by
        rw [Stmt.unknownScene?, h]
      exact .single (visits_line _) hnone
    | none =>
      have hproblem := (visits_origin loc).bind (f := fun _ => problem _ _ _)
        (visits_problem .unknownScene s!"unknown scene '{scene}'" loc)
      simpa [VisitsAll, Stmt.walk, Stmt.filterMap_location_singleton, Stmt.location, Stmt.unknownScene?, h]
        using hproblem
  case raw =>
    intro text loc
    rw [stmt]
    exact .single (visits_lines _) fun _ => rfl
  case assignIndex =>
    intro array subscript op value loc
    rw [stmt]
    exact .single (.ofExcept_bind fun _ => .ofExcept_bind fun _ => visits_line _) fun _ => rfl
  case absent => exact visits_pure
  case chain =>
    intro test yes no loc hyes hno
    rw [branch, Option.getD_some, Stmt.walkAll, Stmt.walkAll, List.append_nil, Stmt.walk_cond]
    refine .ofExcept_bind fun _ => ?_
    refine VisitsAll.origin (a := .cond test yes no loc) ?_ fun _ => rfl
    exact (((VisitsAll.block hyes).inside 1).bind hno).after (visits_reopen _)
  case other =>
    intro stmts hother hstmts
    rw [branch_else hother]
    exact ((VisitsAll.block hstmts).inside 1).after (visits_reopen _)

/-- The items of statements. -/
private theorem visits_block_walk (stmts : List Stmt) :
    VisitsAll s 0 0 (Stmt.walkAll stmts) (block s stmts) :=
  .block fun a _ => visitsAll_all.1 a

/-- Statements that are lowered with a source map leave behind an entry for every place of the walk and an
error for every change to an unknown scene, both in the order of the walk, and the indentation they found,
which they never go out of. -/
theorem block_visits_walk {c c' : Context} {stmts : List Stmt} (hmapped : s.options.sourceMap = true)
    (h : c.take? s.options.sourceMap (block s stmts) = some (c',.ok ())) :
    (∃ entries, c'.sourceMap.entries = c.sourceMap.entries ++ entries ∧
        EntriesFor c.page.lineCount c.functions.head?
          ((Stmt.walkAll stmts).filterMap Stmt.location) entries) ∧
      c'.diagnostics =
        c.diagnostics.addErrors ((Stmt.walkAll stmts).filterMap (Stmt.unknownScene? s c.current)) ∧
      c'.page.depth = c.page.depth ∧
      ∀ p ∈ c.stages s.options.sourceMap (block s stmts).items, c.page.depth ≤ p.depth := by
  obtain ⟨_,hrendered,hsame⟩ := Option.map_eq_some_iff.mp h
  obtain ⟨rfl,hends⟩ := Prod.mk.injEq .. ▸ hsame
  have hvisits := visits_block_walk stmts hends
  obtain ⟨hdepth,hstages⟩ := hvisits.indents s.options.sourceMap c c.page.depth rfl
  have hentries := Context.entries_renderAll (hmapped ▸ hrendered) hvisits.stays
  rw [hvisits.places] at hentries
  refine ⟨hentries,?_,hdepth _ hrendered,hstages⟩
  rw [Context.diagnostics_renderAll hrendered hvisits.stays, hvisits.found]

/-- In a function, the four statements of a chain are noted behind its head, and a change to the moon is an
error. -/
theorem lantern_visits_walk :
    let s : Scope := ⟨{ name := "cave" },{}⟩
    let place (line : UInt32) : Location := { file := "cave.rs", line }
    let stmts : List Stmt :=
      [.cond (.var "lit") [.changeScene "moon" (some (place 2))]
        (some [.cond (.var "seen") [.raw "hide();" (some (place 4))] none (some (place 3))])
        (some (place 1))]
    let c : Context := ⟨⟨["void enter(void) \x7b"],1,1,rfl⟩,.paletteData,["enter"],.empty,.empty⟩
    Context.start.render? true (.beginFunction (.procedure "enter")) = some c ∧
      s.options.sourceMap = true ∧ ∃ c', c.take? s.options.sourceMap (block s stmts) = some (c',.ok ()) ∧
      (∃ entries, c'.sourceMap.entries = [] ++ entries ∧
        EntriesFor 1 (some "enter") [place 1,place 2,place 3,place 4] entries) ∧
      c'.diagnostics = Diagnostics.empty.addErrors
        [⟨.unknownScene,.error,Section.paletteData.name,"unknown scene 'moon'",some (place 2)⟩] ∧
      c'.page.depth = 1 ∧
      ∀ p ∈ c.stages s.options.sourceMap (block s stmts).items, 1 ≤ p.depth := by
  intro s place stmts c
  have hrendered : (c.renderAll? s.options.sourceMap (block s stmts).items).isSome := by decide +kernel
  obtain ⟨c',hc'⟩ := Option.isSome_iff_exists.mp hrendered
  have h : c.take? s.options.sourceMap (block s stmts) = some (c',.ok ()) := by
    rw [Context.take?, hc']
    rfl
  exact ⟨by decide +kernel,rfl,c',h,block_visits_walk rfl h⟩

end Lower

end Cartridge
