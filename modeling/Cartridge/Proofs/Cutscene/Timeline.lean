import Cartridge.Cutscene.Emit

/-!
Induction over the steps of a cutscene, where placing them puts their cues, and the way of their
statements to the cues of a frame.
-/
namespace Cartridge.Cutscene

namespace Step

/-- Induction over steps, those of the branches of a group being covered one by one. -/
@[induction_eliminator]
theorem induction {motive : Step → Prop} (wait : ∀ frames, motive (.wait frames))
    (run : ∀ stmts, motive (.run stmts))
    (parallel : ∀ branches, (∀ b ∈ branches, ∀ s ∈ b, motive s) → motive (.parallel branches))
    (transition : ∀ effect frames, motive (.transition effect frames)) (s : Step) : motive s :=
  @Step.rec motive (fun branches => ∀ b ∈ branches, ∀ s ∈ b, motive s) (fun b => ∀ s ∈ b, motive s)
    wait run parallel transition
    (by simp) (fun _ _ hb hbs => List.forall_mem_cons.mpr ⟨hb,hbs⟩)
    (by simp) (fun _ _ hs hss => List.forall_mem_cons.mpr ⟨hs,hss⟩) s

mutual

/-- The cues of a step that starts at a frame, told by the durations of what comes before them. -/
def cues (start : Nat) : Step → List Cue
  | .wait _ => []
  | .run stmts => [⟨start, .run stmts⟩]
  | .parallel branches => cuesOfBranches start branches
  | .transition effect frames => [⟨start, .transition effect frames⟩]

def cuesOf (start : Nat) : List Step → List Cue
  | [] => []
  | s :: rest => s.cues start ++ cuesOf (start + s.duration) rest

def cuesOfBranches (start : Nat) : List (List Step) → List Cue
  | [] => []
  | b :: rest => cuesOf start b ++ cuesOfBranches start rest

end

/-- The last of several branches that start together ends with the longest. -/
private theorem max_ends (start : Nat) (branches : List (List Step)) :
    (branches.map fun b => start + total b).max?.getD start = start + longest branches := by
  induction branches with
  | nil => rfl
  | cons b branches ih =>
    rw [List.map_cons, List.max?_cons, longest, ← Nat.add_max_add_left, ← ih]
    cases (branches.map fun b => start + total b).max? with
    | none => simp
    | some last => rfl

mutual

/-- A step ends as much after its start as it lasts. -/
theorem place_eq : ∀ (s : Step) (start : Nat), s.place start = (s.cues start,start + s.duration)
  | .wait _, _ | .run _, _ | .transition _ _, _ => rfl
  | .parallel branches, start => by
    rw [place, placeBranches_eq branches start, cues, duration, ← max_ends]

theorem placeAll_eq :
    ∀ (steps : List Step) (start : Nat), placeAll start steps = (cuesOf start steps,start + total steps)
  | [], _ => rfl
  | s :: rest, start => by
    rw [placeAll, place_eq s start, cuesOf, total, ← Nat.add_assoc]
    simp only [placeAll_eq rest]

theorem placeBranches_eq : ∀ (branches : List (List Step)) (start : Nat), placeBranches start branches =
    (cuesOfBranches start branches,branches.map fun b => start + total b)
  | [], _ => rfl
  | b :: rest, start => by
    rw [placeBranches, placeAll_eq b start, placeBranches_eq rest start, cuesOfBranches, List.map_cons]

end

end Step

theorem schedule_eq (c : Cutscene) :
    c.schedule = (Step.cuesOf 0 c.steps).mergeSort fun a b => a.frame ≤ b.frame := by
  rw [schedule, Step.placeAll_eq]

def Action.stmts : Action → List Stmt
  | .run stmts => stmts
  | .transition .. => []

private theorem stmts_cuesOf {steps : List Step}
    (h : ∀ s ∈ steps, ∀ start, (s.cues start).flatMap (·.action.stmts) = s.stmts) (start : Nat) :
    (Step.cuesOf start steps).flatMap (·.action.stmts) = Step.stmtsOf steps := by
  induction steps generalizing start with
  | nil => rfl
  | cons s steps ih =>
    obtain ⟨hs,hsteps⟩ := List.forall_mem_cons.mp h
    rw [Step.cuesOf, List.flatMap_append, hs, ih hsteps, Step.stmtsOf]

private theorem stmts_cues (s : Step) :
    ∀ start, (s.cues start).flatMap (·.action.stmts) = s.stmts := by
  induction s with
  | wait frames => simp [Step.cues, Step.stmts]
  | run stmts => simp [Step.cues, Step.stmts, Action.stmts]
  | transition effect frames => simp [Step.cues, Step.stmts, Action.stmts]
  | parallel branches hbranches =>
    intro start
    rw [Step.cues, Step.stmts]
    induction branches with
    | nil => rfl
    | cons b branches ih =>
      obtain ⟨hb,hbranches⟩ := List.forall_mem_cons.mp hbranches
      rw [Step.cuesOfBranches, List.flatMap_append, stmts_cuesOf hb, ih hbranches,
        Step.stmtsOfBranches]

/-- The cues of a schedule run the statements of the cutscene and no others. -/
theorem mem_schedule {c : Cutscene} {a : Stmt} :
    (∃ cue ∈ c.schedule, a ∈ cue.action.stmts) ↔ a ∈ Step.stmtsOf c.steps := by
  rw [← stmts_cuesOf (fun s _ => stmts_cues s) 0, List.mem_flatMap]
  simp only [schedule_eq, List.mem_mergeSort]

/-- Grouped by frames, the actions of cues stay as they are. -/
theorem Emit.actions_groups (cues : List Cue) :
    (groups cues).flatMap Prod.snd = cues.map Cue.action := by
  induction cues with
  | nil => rfl
  | cons cue cues ih =>
    rw [groups, List.map_cons, ← ih]
    split
    next frame actions later hgroups =>
      rw [hgroups]
      split <;> rfl
    next hgroups => rw [hgroups]; rfl

end Cartridge.Cutscene
