import Mathlib.Logic.Function.Iterate
import Cartridge.Proofs.Program.Length

/-!
Strict and lenient runs. Both render the same file with the same diagnostics, which a strict run
refuses to go on with and a lenient one turns into warnings.
-/
namespace Cartridge

def Diagnostic.toError (x : Diagnostic) : Diagnostic := { x with severity := .error }

namespace Diagnostics

/-- All diagnostics are errors, and all are counted. -/
structure Raised (d : Diagnostics) : Prop where
  severity : ∀ x ∈ d.errors, x.severity = .error
  warnings : d.warnings = []
  totalErrors : d.totalErrors = d.errors.length
  totalWarnings : d.totalWarnings = 0

theorem raised_empty : empty.Raised := ⟨nofun,rfl,rfl,rfl⟩

theorem Raised.pushError {d : Diagnostics} (h : d.Raised) {x : Diagnostic}
    (hx : x.severity = .error) : (d.pushError x).Raised where
  severity := by
    intro y hy
    rcases List.mem_append.mp hy with hy | hy
    · exact h.severity y hy
    · rw [List.mem_singleton.mp hy, hx]
  warnings := h.warnings
  totalErrors := by simp [Diagnostics.pushError, h.totalErrors]
  totalWarnings := h.totalWarnings

theorem downgrade_warnings (d : Diagnostics) :
    d.downgrade.warnings = d.warnings ++ d.errors.map Diagnostic.toWarning := by
  have hfold (xs : List Diagnostic) (d : Diagnostics) :
      (xs.foldl pushWarning d).warnings = d.warnings ++ xs.map Diagnostic.toWarning := by
    induction xs generalizing d with
    | nil => simp
    | cons x xs ih => simp [ih, pushWarning]
  exact hfold d.errors _

theorem Raised.hasErrors {d : Diagnostics} (h : d.Raised) : d.hasErrors = !d.errors.isEmpty := by
  cases he : d.errors <;> simp [Diagnostics.hasErrors, h.totalErrors, he]

/-- Turned into warnings and back, errors are what they were. -/
theorem Raised.toError_downgrade {d : Diagnostics} (h : d.Raised) :
    d.downgrade.warnings.map Diagnostic.toError = d.errors := by
  rw [downgrade_warnings, h.warnings, List.nil_append, List.map_map]
  refine (List.map_congr_left fun x hx => ?_).trans (List.map_id _)
  have hsame : { x with severity := .error } = x := by rw [← h.severity x hx]
  exact hsame

end Diagnostics

namespace Code.Context

theorem raised_render {mapped : Bool} {c d : Context} (hc : c.diagnostics.Raised) {i : Item}
    (h : c.render? mapped i = some d) : d.diagnostics.Raised := by
  obtain ⟨-,-,hd⟩ := render?_eq_some h
  rw [hd]
  cases i with
  | problem rule message location => exact hc.pushError rfl
  | _ => exact hc

/-- A rendered file has raised diagnostics only. -/
theorem raised_renderAll {mapped : Bool} {c d : Context} (hc : c.diagnostics.Raised) {items : List Item}
    (h : c.renderAll? mapped items = some d) : d.diagnostics.Raised := by
  induction items generalizing c with
  | nil => cases h; exact hc
  | cons i items ih =>
    obtain ⟨e,he,hd⟩ := foldlM_cons_eq_some.mp h
    exact ih (raised_render hc he) hd

end Code.Context

namespace Program

open Code Diagnostics

namespace Generator

/-- What earlier runs left behind makes no difference. -/
theorem run_of_leftovers (g : Generator) (d : Diagnostics) (m : SourceMap) :
    ({ g with diagnostics := d, sourceMap := m } : Generator).run.1 = g.run.1 := rfl

theorem run_leaves (g : Generator) :
    ∃ d m, g.run.2 = { g with diagnostics := d, sourceMap := m } := by
  rw [run]
  rcases Context.start.take? g.options.lower.sourceMap g.file with _ | ⟨c,(e | _) | _⟩ <;> exact ⟨_,_,rfl⟩

/-- Every further run answers as the first one. -/
theorem run_iterate (g : Generator) (n : Nat) : ((fun g => g.run.2)^[n] g).run.1 = g.run.1 := by
  induction n generalizing g with
  | zero => rfl
  | succ n ih =>
    obtain ⟨d,m,h⟩ := run_leaves g
    rw [Function.iterate_succ_apply, ih, h, run_of_leftovers]

end Generator

/-- What a strict run answers, and what a lenient one does. -/
inductive Agreement : Except (Halt Failure) Generated → Except (Halt Failure) Generated → Prop
  | stopped (e : LowerError) : Agreement (.error (.error (.lower e))) (.error (.error (.lower e)))
  | passed (file : Generated) (h : file.warnings = []) : Agreement (.ok file) (.ok file)
  | refused (file : Generated) (d : Diagnostics) (hne : file.warnings ≠ [])
      (errors : d.errors = file.warnings.map Diagnostic.toError)
      (total : d.totalErrors = file.warnings.length) (warnings : d.warnings = []) :
      Agreement (.error (.error (.broken d))) (.ok file)

/-- Where the code of the file goes through, the two ways of finishing it agree. -/
theorem agreement_finish (g : Game) (o : Options) {c : Context} (h : c.diagnostics.Raised) :
    Agreement (Generator.finish { game := g, options := { o with strict := true } } c)
      (Generator.finish { game := g, options := { o with strict := false } } c) := by
  have hwarnings := downgrade_warnings c.diagnostics
  rw [h.warnings, List.nil_append] at hwarnings
  cases he : c.diagnostics.errors with
  | nil =>
    rw [he, List.map_nil] at hwarnings
    simp only [Generator.finish, h.hasErrors, he]
    exact .passed _ hwarnings
  | cons x xs =>
    simp only [Generator.finish, h.hasErrors, he]
    refine .refused _ _ ?_ h.toError_downgrade.symm ?_ h.warnings
    · rw [hwarnings, he]
      exact List.cons_ne_nil _ _
    · rw [h.totalErrors, hwarnings, List.length_map]

/-- A strict and a lenient run of a game agree, unless something in it leaves its range and both
fault; and runs can be repeated. -/
theorem strict_and_lenient_agree (g : Game) (o : Options) :
    ((g.Overruns o.lower ∧ generate g { o with strict := true } = .error .fault ∧
        generate g { o with strict := false } = .error .fault) ∨
      (¬g.Overruns o.lower ∧
        Agreement (generate g { o with strict := true }) (generate g { o with strict := false }))) ∧
    ∀ strict n, ((fun gen : Generator => gen.run.2)^[n]
      { game := g, options := { o with strict } }).run.1 = generate g { o with strict } := by
  refine ⟨?_,fun strict n => Generator.run_iterate _ n⟩
  by_cases hover : g.Overruns o.lower
  · exact .inl ⟨hover,(generate_fault_iff g _).mpr hover,(generate_fault_iff g _).mpr hover⟩
  · refine .inr ⟨hover,?_⟩
    have hfile : (Generator.file { game := g, options := { o with strict := false } }) =
        Generator.file { game := g, options := { o with strict := true } } := rfl
    have hfault := (generate_fault_iff g { o with strict := true }).not.mpr hover
    rw [generate_eq] at hfault
    rw [generate_eq, generate_eq, hfile]
    cases hc : Context.start.renderAll? o.lower.sourceMap
        (Generator.file { game := g, options := { o with strict := true } }).items with
    | none => simp [hc] at hfault
    | some c =>
      cases h : (Generator.file { game := g, options := { o with strict := true } }).result with
      | error e =>
        cases e with
        | error e => exact .stopped e
        | fault => simp [hc, h] at hfault
      | ok _ => exact agreement_finish g o (Context.raised_renderAll raised_empty hc)

/-- At such a map neither run has an answer to agree on. -/
theorem strict_and_lenient_may_fault :
    ¬Agreement (generate emptyMap { strict := true }) (generate emptyMap { strict := false }) := by
  rw [(generate_fault_iff _ _).mpr (emptyMap_overruns _)]
  exact nofun

end Program

end Cartridge
