import Mathlib.Data.List.Permutation
import Mathlib.Order.Nat
import Cartridge.Proofs.Code.Emission
import Cartridge.Proofs.Cutscene.Schedule

/-!
The switch that plays a cutscene. It has one arm for each frame at which something happens, in the
order of the frames, and an arm does all that happens at its frame, in the order of declaration.
-/
namespace Cartridge.Cutscene

open Code Code.Emission Lower

section sorting

variable {α : Type} (key : α → Nat)

private theorem key_trans (a b c : α) (hab : decide (key a ≤ key b)) (hbc : decide (key b ≤ key c)) :
    decide (key a ≤ key c) :=
  decide_eq_true ((of_decide_eq_true hab).trans (of_decide_eq_true hbc))

private theorem key_total (a b : α) : decide (key a ≤ key b) || decide (key b ≤ key a) := by
  simpa using Nat.le_total (key a) (key b)

theorem pairwise_mergeSort_key (l : List α) :
    (l.mergeSort fun a b => key a ≤ key b).Pairwise fun a b => key a ≤ key b :=
  (List.pairwise_mergeSort (key_trans key) (key_total key) l).imp of_decide_eq_true

/-- Sorting leaves items with one key as they are. -/
theorem filter_mergeSort_key (l : List α) (k : Nat) :
    (l.mergeSort fun a b => key a ≤ key b).filter (fun a => key a = k) =
      l.filter fun a => key a = k := by
  have hsame : (l.filter fun a => key a = k).Pairwise fun a b => decide (key a ≤ key b) := by
    rw [List.pairwise_filter]
    exact List.pairwise_of_forall fun _ _ ha hb => by simp_all
  have hsub := (List.sublist_mergeSort (key_trans key) (key_total key) hsame List.filter_sublist).filter
    fun a => decide (key a = k)
  rw [List.filter_filter] at hsub
  simp only [Bool.and_self] at hsub
  exact (hsub.eq_of_length ((List.mergeSort_perm l _).filter _).length_eq.symm).symm

/-- Items with one key keep their order. -/
theorem pairwise_mergeSort_of {R : α → α → Prop} {l : List α} (h : l.Pairwise R) :
    (l.mergeSort fun a b => key a ≤ key b).Pairwise fun a b =>
      key a < key b ∨ key a = key b ∧ R a b := by
  have hsorted := pairwise_mergeSort_key key l
  rw [List.pairwise_iff_forall_sublist] at h hsorted ⊢
  intro a b hab
  rcases (hsorted hab).lt_or_eq with hlt | he
  · exact .inl hlt
  · have hfilter := hab.filter fun x => decide (key x = key a)
    rw [filter_mergeSort_key, List.filter_cons_of_pos (by simp), List.filter_cons_of_pos (by simp [he]),
      List.filter_nil] at hfilter
    exact .inr ⟨he,h (hfilter.trans List.filter_sublist)⟩

end sorting

theorem sorted_schedule (c : Cutscene) : c.schedule.Pairwise fun a b => a.frame ≤ b.frame :=
  pairwise_mergeSort_key Cue.frame _

namespace Emit

/-- The frames of groups are those of the cues. -/
theorem mem_frames {cues : List Cue} {frame : Nat} :
    frame ∈ (groups cues).map Prod.fst ↔ ∃ cue ∈ cues, cue.frame = frame := by
  induction cues with
  | nil => simp [groups]
  | cons cue cues ih =>
    rw [List.exists_mem_cons_iff, ← ih, groups]
    split
    next first actions later hgroups =>
      rw [hgroups]
      split
      next he => simp [he, eq_comm]
      next => simp [eq_comm]
    next hgroups => simp [hgroups, eq_comm]

/-- A cue before all others is alone at its frame. -/
private theorem filter_alone {cue : Cue} {cues : List Cue}
    (h : ∀ frame ∈ (groups cues).map Prod.fst, cue.frame < frame) :
    (cue :: cues).filter (fun c => c.frame = cue.frame) = [cue] := by
  rw [List.filter_cons_of_pos (by simp), List.filter_eq_nil_iff.mpr]
  intro c hc
  have hlt := h c.frame (mem_frames.mpr ⟨c,hc,rfl⟩)
  simpa using hlt.ne'

/-- Groups of sorted cues follow one another, and each has all actions of its frame. -/
theorem groups_of_sorted {cues : List Cue} (h : cues.Pairwise fun a b => a.frame ≤ b.frame) :
    ((groups cues).map Prod.fst).Pairwise (· < ·) ∧
      ∀ group ∈ groups cues, group.2 = (cues.filter fun cue => cue.frame = group.1).map Cue.action := by
  induction cues with
  | nil => exact ⟨.nil,List.forall_mem_nil _⟩
  | cons cue cues ih =>
    obtain ⟨hfirst,hrest⟩ := List.pairwise_cons.mp h
    obtain ⟨hframes,hactions⟩ := ih hrest
    have hle : ∀ frame ∈ (groups cues).map Prod.fst, cue.frame ≤ frame := by
      intro frame hframe
      obtain ⟨c,hc,rfl⟩ := mem_frames.mp hframe
      exact hfirst c hc
    have hother : ∀ group ∈ groups cues, cue.frame < group.1 →
        group.2 = ((cue :: cues).filter fun c => c.frame = group.1).map Cue.action := by
      intro group hgroup hlt
      rw [List.filter_cons_of_neg (by simpa using hlt.ne)]
      exact hactions group hgroup
    have halone := @filter_alone cue cues
    rw [groups]
    split
    next frame actions later hgroups =>
      rw [hgroups] at hframes hactions hle hother halone
      have hlater := (List.pairwise_cons.mp hframes).1
      split
      next he =>
        refine ⟨hframes,List.forall_mem_cons.mpr ⟨?_,?_⟩⟩
        · rw [List.filter_cons_of_pos (by simp [he]), List.map_cons]
          exact congrArg _ (hactions _ (List.mem_cons_self ..))
        · intro group hgroup
          exact hother group (.tail _ hgroup) (he ▸ hlater _ (List.mem_map_of_mem hgroup))
      next hne =>
        have hlt : cue.frame < frame := lt_of_le_of_ne (hle _ (List.mem_cons_self ..)) (Ne.symm hne)
        have hafter : ∀ f ∈ ((frame,actions) :: later).map Prod.fst, cue.frame < f :=
          List.forall_mem_cons.mpr ⟨hlt,fun f hf => hlt.trans (hlater f hf)⟩
        refine ⟨List.pairwise_cons.mpr ⟨hafter,hframes⟩,List.forall_mem_cons.mpr ⟨?_,?_⟩⟩
        · rw [halone hafter]
          rfl
        · intro group hgroup
          exact hother group hgroup (hafter _ (List.mem_map_of_mem hgroup))
    next hgroups =>
      rw [hgroups] at halone
      refine ⟨List.pairwise_singleton ..,List.forall_mem_cons.mpr ⟨?_,List.forall_mem_nil _⟩⟩
      rw [halone (List.forall_mem_nil _)]
      rfl

end Emit

def frames (c : Cutscene) : List Nat := (Emit.groups c.schedule).map Prod.fst

def actionsAt (c : Cutscene) (frame : Nat) : List Action :=
  (c.schedule.filter fun cue => cue.frame = frame).map Cue.action

theorem groups_eq (c : Cutscene) :
    Emit.groups c.schedule = c.frames.map fun frame => (frame,c.actionsAt frame) := by
  have hactions := (Emit.groups_of_sorted c.sorted_schedule).2
  rw [frames, List.map_map]
  conv_lhs => rw [← List.map_id (Emit.groups c.schedule)]
  apply List.map_congr_left
  intro group hgroup
  exact Prod.ext rfl (hactions group hgroup)

/-- The switch has one arm a frame. -/
theorem frameSwitch_eq (s : Scope) (c : Cutscene) :
    Emit.frameSwitch s c = if c.frames = [] then return () else
      choice (Emit.frameName c)
        (each (fun frame => Emit.frameArm s frame (c.actionsAt frame)) c.frames) := by
  rw [Emit.frameSwitch, groups_eq]
  cases hframes : c.frames with
  | nil => rfl
  | cons frame rest =>
    rw [if_neg (List.cons_ne_nil frame rest), ← each_map (fun (group : Nat × List Action) =>
      Emit.frameArm s group.1 group.2) fun frame => (frame,c.actionsAt frame)]
    rfl

def Action.fades : Action → Bool
  | .run _ => false
  | .transition .. => true

namespace Step

mutual

theorem any_fades_cues : ∀ (s : Step) (start : Nat), (s.cues start).any (·.action.fades) = s.fades
  | .wait _, _ | .run _, _ | .transition _ _, _ => rfl
  | .parallel branches, start => by rw [cues, fades, any_fades_cuesOfBranches branches]

theorem any_fades_cuesOf : ∀ (steps : List Step) (start : Nat),
    (cuesOf start steps).any (·.action.fades) = anyFades steps
  | [], _ => rfl
  | s :: rest, start => by
    rw [cuesOf, anyFades, List.any_append, any_fades_cues s, any_fades_cuesOf rest]

theorem any_fades_cuesOfBranches : ∀ (branches : List (List Step)) (start : Nat),
    (cuesOfBranches start branches).any (·.action.fades) = anyBranchFades branches
  | [], _ => rfl
  | b :: rest, start => by
    rw [cuesOfBranches, anyBranchFades, List.any_append, any_fades_cuesOf b, any_fades_cuesOfBranches rest]

end

end Step

/-- A cutscene plays a screen effect if its schedule does. -/
theorem fades_iff (c : Cutscene) :
    c.fades = true ↔ ∃ cue ∈ c.schedule, ∃ effect frames, cue.action = .transition effect frames := by
  have hfades (a : Action) : a.fades = true ↔ ∃ effect frames, a = .transition effect frames := by
    cases a <;> simp [Action.fades]
  rw [Cutscene.fades, ← Step.any_fades_cuesOf c.steps 0, List.any_eq_true]
  simp only [hfades, schedule_eq, List.mem_mergeSort]

/-- The schedule of a cutscene with the place of each cue: the steps that do something, in the order of
their frames, and those of one frame in the order of their places. -/
theorem exists_plays (c : Cutscene) :
    ∃ plays : List (List Nat × Cue), plays.map Prod.snd = c.schedule ∧
      (∀ place cue, (place,cue) ∈ plays ↔
        ∃ s, Step.StandsAt c.steps place cue.frame s ∧ s.action? = some cue.action) ∧
      (plays.map Prod.fst).Nodup ∧
      plays.Pairwise fun x y => x.2.frame < y.2.frame ∨ x.2.frame = y.2.frame ∧ x.1 < y.1 := by
  have hordered := Step.ordered_playsOf c.steps 0 0
  refine ⟨(Step.playsOf 0 0 c.steps).mergeSort fun x y => x.2.frame ≤ y.2.frame,?_,?_,?_,?_⟩
  · rw [schedule_eq, ← Step.snd_playsOf c.steps 0 0]
    apply List.map_mergeSort
    intro x _ y _
    rfl
  · intro place cue
    rw [List.mem_mergeSort, Step.mem_playsOf_zero fun s _ => s.listsPlays]
    constructor
    · rintro ⟨f,s,hs,haction,hframe⟩
      rw [Nat.zero_add] at hframe
      exact ⟨s,hframe ▸ hs,haction⟩
    · rintro ⟨s,hs,haction⟩
      exact ⟨cue.frame,s,hs,haction,by rw [Nat.zero_add]⟩
  · rw [((List.mergeSort_perm _ _).map Prod.fst).nodup_iff]
    apply (List.pairwise_map.mpr hordered).imp
    rintro place _ hlt rfl
    exact List.lt_irrefl place hlt
  · exact pairwise_mergeSort_of (fun x : List Nat × Cue => x.2.frame) hordered

/-- The schedule of a cutscene has the cue of every step that does something once, at the frame that the
durations before the step add up to, in the order of frames and then of declaration. Placing steps ends
as much after its start as they last, and no frame passes the duration of the cutscene. The switch has
one arm a frame, which does all that happens then; and screen effects are part of a program if some
schedule has one. -/
theorem schedule_is_faithful (c : Cutscene) (h : c.duration < Emit.frameLimit) :
    (∃ plays : List (List Nat × Cue), plays.map Prod.snd = c.schedule ∧
      (∀ place cue, (place,cue) ∈ plays ↔
        ∃ s, Step.StandsAt c.steps place cue.frame s ∧ s.action? = some cue.action) ∧
      (plays.map Prod.fst).Nodup ∧
      plays.Pairwise fun x y => x.2.frame < y.2.frame ∨ x.2.frame = y.2.frame ∧ x.1 < y.1) ∧
    (∀ steps start, (Step.placeAll start steps).2 = start + Step.total steps) ∧
    (∀ place frame s, Step.StandsAt c.steps place frame s →
      frame + s.duration ≤ c.duration ∧ frame + s.duration < Emit.frameLimit) ∧
    (∀ cue ∈ c.schedule, cue.frame ≤ c.duration) ∧
    (∃ frames : List Nat, frames.Pairwise (· < ·) ∧
      (∀ frame, frame ∈ frames ↔ ∃ cue ∈ c.schedule, cue.frame = frame) ∧
      ∀ s : Scope, Emit.frameSwitch s c = if frames = [] then return () else
        choice (Emit.frameName c) (each (fun frame => arm s!"case {frame}" (each (Emit.action s)
          ((c.schedule.filter fun cue => cue.frame = frame).map Cue.action))) frames)) ∧
    ∀ g : Game, Fade.isUsed g = true ↔ ∃ c ∈ g.cutscenes, ∃ cue ∈ c.schedule,
      ∃ effect frames, cue.action = .transition effect frames := by
  obtain ⟨plays,hschedule,hmem,-⟩ := c.exists_plays
  have hend {place : List Nat} {frame : Nat} {s : Step} (hs : Step.StandsAt c.steps place frame s) :
      frame + s.duration ≤ c.duration := hs.end_le
  refine ⟨c.exists_plays,?_,?_,?_,?_,?_⟩
  · intro steps start
    rw [Step.placeAll_eq]
  · intro place frame s hs
    exact ⟨hend hs,(hend hs).trans_lt h⟩
  · intro cue hcue
    rw [← hschedule] at hcue
    obtain ⟨⟨place,_⟩,hplay,rfl⟩ := List.mem_map.mp hcue
    obtain ⟨s,hs,-⟩ := (hmem place _).mp hplay
    exact (Nat.le_add_right ..).trans (hend hs)
  · exact ⟨c.frames,(Emit.groups_of_sorted c.sorted_schedule).1,fun frame => Emit.mem_frames,
      fun s => frameSwitch_eq s c⟩
  · intro g
    simp only [Fade.isUsed, List.any_eq_true, fades_iff]

def sunrise : Cutscene :=
  ⟨"sunrise",
    [.run [.raw "birds();" none],.wait 10,
      .parallel
        [[.wait 5,.parallel [[.transition .flash 4,.run []],[.run [.raw "rooster();" none]]]],
          [.transition .fadeIn 20,.wait 3],[]],
      .run [.raw "wake();" none]]⟩

theorem sunrise_schedule_is_faithful :
    sunrise.duration < Emit.frameLimit ∧ sunrise.schedule.map Cue.frame = [0,10,15,15,19,33] ∧
      (∃ plays : List (List Nat × Cue), plays.map Prod.snd = sunrise.schedule ∧
        (∀ place cue, (place,cue) ∈ plays ↔
          ∃ s, Step.StandsAt sunrise.steps place cue.frame s ∧ s.action? = some cue.action) ∧
        (plays.map Prod.fst).Nodup ∧
        plays.Pairwise fun x y => x.2.frame < y.2.frame ∨ x.2.frame = y.2.frame ∧ x.1 < y.1) ∧
      ∀ cue ∈ sunrise.schedule, cue.frame ≤ 33 := by
  have hlimit : sunrise.duration < Emit.frameLimit := by decide
  obtain ⟨hplays,-,-,hframes,-⟩ := schedule_is_faithful sunrise hlimit
  exact ⟨hlimit,by cbv,hplays,hframes⟩

end Cartridge.Cutscene
