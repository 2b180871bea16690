import Cartridge.Cutscene.Fade
import Cartridge.Proofs.Cutscene.Timeline
import Cartridge.Proofs.Stmt.Walk

/-!
Games without the places their statements were written at. What a game declares, how long its
cutscenes last and when their cues fall is the same without them.
-/
namespace Cartridge

namespace Stmt

mutual

def erase : Stmt → Stmt
  | .assign target op value _ => .assign target op value none
  | .cond test yes no _ => .cond test (eraseAll yes) (eraseBranch no) none
  | .loop test body _ => .loop test (eraseAll body) none
  | .range counter first last body _ => .range counter first last (eraseAll body) none
  | .call name args _ => .call name args none
  | .changeScene scene _ => .changeScene scene none
  | .raw text _ => .raw text none
  | .assignIndex array subscript op value _ => .assignIndex array subscript op value none

def eraseAll : List Stmt → List Stmt
  | [] => []
  | s :: rest => erase s :: eraseAll rest

def eraseBranch : Option (List Stmt) → Option (List Stmt)
  | none => none
  | some stmts => some (eraseAll stmts)

end

theorem eraseAll_eq_map (stmts : List Stmt) : eraseAll stmts = stmts.map erase := by
  induction stmts with
  | nil => rfl
  | cons s stmts ih => rw [eraseAll, ih, List.map_cons]

@[simp] theorem isEmpty_eraseAll (stmts : List Stmt) :
    (eraseAll stmts).isEmpty = stmts.isEmpty := by
  cases stmts <;> rfl

end Stmt

open Stmt (eraseAll)

def Scene.erase (s : Scene) : Scene :=
  ⟨s.name, eraseAll s.onEnter, eraseAll s.onFrame, eraseAll s.onExit⟩

namespace Machine

def State.erase (s : State) : State :=
  ⟨s.name, eraseAll s.onEnter, eraseAll s.onUpdate, eraseAll s.onExit⟩

def erase (m : Machine) : Machine := { m with states := m.states.map State.erase }

@[simp] theorem stateIndex_erase (m : Machine) : m.erase.stateIndex = m.stateIndex := by
  funext name
  simp only [stateIndex, erase, List.findIdx?_map]
  rfl

@[simp] theorem validate_erase (m : Machine) : m.erase.validate = m.validate := by
  rw [validate, validate, stateIndex_erase]
  rfl

end Machine

namespace Physics

def Pair.erase (p : Pair) : Pair := { p with onHit := eraseAll p.onHit }

def World.erase (w : World) : World := { w with pairs := w.pairs.map Pair.erase }

end Physics

namespace Cutscene

namespace Step

mutual

def erase : Step → Step
  | .wait frames => .wait frames
  | .run stmts => .run (eraseAll stmts)
  | .parallel branches => .parallel (eraseBranches branches)
  | .transition effect frames => .transition effect frames

def eraseSteps : List Step → List Step
  | [] => []
  | s :: rest => erase s :: eraseSteps rest

def eraseBranches : List (List Step) → List (List Step)
  | [] => []
  | b :: rest => eraseSteps b :: eraseBranches rest

end

end Step

def Action.erase : Action → Action
  | .run stmts => .run (eraseAll stmts)
  | .transition effect frames => .transition effect frames

def Cue.erase (c : Cue) : Cue := { c with action := c.action.erase }

def erase (c : Cutscene) : Cutscene := { c with steps := Step.eraseSteps c.steps }

namespace Step

mutual

theorem duration_erase : ∀ s : Step, s.erase.duration = s.duration
  | .wait _ | .run _ | .transition _ _ => rfl
  | .parallel branches => by rw [erase, duration, duration, longest_erase]

theorem total_erase : ∀ steps : List Step, total (eraseSteps steps) = total steps
  | [] => rfl
  | s :: rest => by rw [eraseSteps, total, total, duration_erase, total_erase]

theorem longest_erase :
    ∀ branches : List (List Step), longest (eraseBranches branches) = longest branches
  | [] => rfl
  | b :: rest => by rw [eraseBranches, longest, longest, total_erase, longest_erase]

end

mutual

theorem fades_erase : ∀ s : Step, s.erase.fades = s.fades
  | .wait _ | .run _ | .transition _ _ => rfl
  | .parallel branches => by rw [erase, fades, fades, anyBranchFades_erase]

theorem anyFades_erase : ∀ steps : List Step, anyFades (eraseSteps steps) = anyFades steps
  | [] => rfl
  | s :: rest => by rw [eraseSteps, anyFades, anyFades, fades_erase, anyFades_erase]

theorem anyBranchFades_erase :
    ∀ branches : List (List Step), anyBranchFades (eraseBranches branches) = anyBranchFades branches
  | [] => rfl
  | b :: rest => by
    rw [eraseBranches, anyBranchFades, anyBranchFades, anyFades_erase, anyBranchFades_erase]

end

mutual

theorem cues_erase : ∀ (s : Step) (start : Nat), s.erase.cues start = (s.cues start).map Cue.erase
  | .wait _, _ | .run _, _ | .transition _ _, _ => rfl
  | .parallel branches, start => by rw [erase, cues, cues, cuesOfBranches_erase]

theorem cuesOf_erase : ∀ (steps : List Step) (start : Nat),
    cuesOf start (eraseSteps steps) = (cuesOf start steps).map Cue.erase
  | [], _ => rfl
  | s :: rest, start => by
    rw [eraseSteps, cuesOf, cuesOf, cues_erase, cuesOf_erase, duration_erase, List.map_append]

theorem cuesOfBranches_erase : ∀ (branches : List (List Step)) (start : Nat),
    cuesOfBranches start (eraseBranches branches) = (cuesOfBranches start branches).map Cue.erase
  | [], _ => rfl
  | b :: rest, start => by
    rw [eraseBranches, cuesOfBranches, cuesOfBranches, cuesOf_erase, cuesOfBranches_erase,
      List.map_append]

end

end Step

@[simp] theorem duration_erase (c : Cutscene) : c.erase.duration = c.duration :=
  Step.total_erase c.steps

@[simp] theorem fades_erase (c : Cutscene) : c.erase.fades = c.fades :=
  Step.anyFades_erase c.steps

/-- The same cues fall in the same order. -/
theorem schedule_erase (c : Cutscene) : c.erase.schedule = c.schedule.map Cue.erase := by
  rw [schedule_eq, schedule_eq, erase, Step.cuesOf_erase]
  symm
  apply List.map_mergeSort
  intro a _ b _
  rfl

end Cutscene

namespace Game

def erase (g : Game) : Game :=
  { g with
    scenes := g.scenes.map Scene.erase
    machines := g.machines.map Machine.erase
    physics := g.physics.map Physics.World.erase
    cutscenes := g.cutscenes.map Cutscene.erase }

@[simp] theorem erase_scenes (g : Game) : g.erase.scenes = g.scenes.map Scene.erase := rfl

@[simp] theorem erase_machines (g : Game) : g.erase.machines = g.machines.map Machine.erase := rfl

@[simp] theorem erase_physics (g : Game) :
    g.erase.physics = g.physics.map Physics.World.erase := rfl

@[simp] theorem erase_cutscenes (g : Game) :
    g.erase.cutscenes = g.cutscenes.map Cutscene.erase := rfl

@[simp] theorem sceneIndex?_erase (g : Game) : g.erase.sceneIndex? = g.sceneIndex? := by
  funext name
  rw [sceneIndex?, erase_scenes, List.findIdx?_map]
  rfl

theorem isNone_scene?_erase (g : Game) (name : String) :
    (g.erase.scene? name).isNone = (g.scene? name).isNone := by
  rw [scene?, erase_scenes, List.find?_map, Option.isNone_map]
  rfl

@[simp] theorem startScene?_erase (g : Game) : g.erase.startScene? = g.startScene? := by
  rw [startScene?, erase_scenes, List.head?_map, Option.map_map]
  rfl

@[simp] theorem poolRange?_erase (g : Game) : g.erase.poolRange? = g.poolRange? := by
  have hranges (first : Nat) (pools : List Pool) :
      g.erase.poolRanges first pools = g.poolRanges first pools := by
    induction pools generalizing first with
    | nil => rfl
    | cons p pools ih =>
      rw [poolRanges, poolRanges, show g.erase.entity? p.entity = g.entity? p.entity from rfl]
      cases g.entity? p.entity <;> simp only [ih]
  funext pool
  rw [poolRange?, hranges]
  rfl

@[simp] theorem isUsed_erase (g : Game) :
    Cutscene.Fade.isUsed g.erase = Cutscene.Fade.isUsed g := by
  simp [Cutscene.Fade.isUsed, List.any_map, Function.comp_def]

end Game

end Cartridge
