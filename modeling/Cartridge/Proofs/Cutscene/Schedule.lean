import Mathlib.Data.List.Basic
import Cartridge.Proofs.Cutscene.Timeline

/-!
The schedule of a cutscene. Every step that does something stands in it once, at the frame that the
durations before it add up to, and steps of one frame keep the order of declaration.
-/
namespace Cartridge.Cutscene

namespace Step

def action? : Step → Option Action
  | .run stmts => some (.run stmts)
  | .transition effect frames => some (.transition effect frames)
  | .wait _ | .parallel _ => none

/-- A step stands at a place of a sequence and begins at a frame of it. The place is the number of the
step, or else that of the group around it, the number of the branch, and the place in the branch. The
frame is the sum of the durations before the step, in its own branch and in all branches around it. -/
inductive StandsAt : List Step → List Nat → Nat → Step → Prop
  | here {steps : List Step} {i : Nat} {s : Step} (hs : steps[i]? = some s) :
      StandsAt steps [i] (total (steps.take i)) s
  | inside {steps b : List Step} {branches : List (List Step)} {i k frame : Nat} {place : List Nat}
      {s : Step} (hgroup : steps[i]? = some (.parallel branches)) (hb : branches[k]? = some b)
      (hs : StandsAt b place frame s) :
      StandsAt steps (i :: k :: place) (total (steps.take i) + frame) s

/-- The same inside a step, which itself stands at its empty place. -/
inductive StandsInside : Step → List Nat → Nat → Step → Prop
  | self (s : Step) : StandsInside s [] 0 s
  | branch {branches : List (List Step)} {b : List Step} {k frame : Nat} {place : List Nat} {s : Step}
      (hb : branches[k]? = some b) (hs : StandsAt b place frame s) :
      StandsInside (.parallel branches) (k :: place) frame s

theorem total_append (xs ys : List Step) : total (xs ++ ys) = total xs + total ys := by
  induction xs with
  | nil => simp [total]
  | cons x xs ih => rw [List.cons_append, total, ih, total, Nat.add_assoc]

/-- Up to the end of a step, a sequence lasts no longer than as a whole. -/
theorem total_take_add_duration {steps : List Step} {i : Nat} {s : Step} (hs : steps[i]? = some s) :
    total (steps.take i) + s.duration ≤ total steps := by
  obtain ⟨hi,rfl⟩ := List.getElem?_eq_some_iff.mp hs
  conv_rhs => rw [← List.take_append_drop i steps, List.drop_eq_getElem_cons hi, total_append, total]
  omega

theorem total_le_longest {branches : List (List Step)} {b : List Step} (hb : b ∈ branches) :
    total b ≤ longest branches := by
  induction branches with
  | nil => cases hb
  | cons first branches ih =>
    rw [longest]
    rcases List.mem_cons.mp hb with rfl | hb
    · exact Nat.le_max_left ..
    · exact Nat.le_trans (ih hb) (Nat.le_max_right ..)

/-- Every step ends before or with the sequence it stands in. -/
theorem StandsAt.end_le {steps : List Step} {place : List Nat} {frame : Nat} {s : Step}
    (h : StandsAt steps place frame s) : frame + s.duration ≤ total steps := by
  induction h with
  | here hs => exact total_take_add_duration hs
  | inside hgroup hb _ ih =>
    have hgroup := total_take_add_duration hgroup
    have hb := total_le_longest (List.mem_of_getElem? hb)
    rw [duration] at hgroup
    omega

theorem standsAt_iff {steps : List Step} {i frame : Nat} {place : List Nat} {a : Step} :
    StandsAt steps (i :: place) frame a ↔
      ∃ s f, steps[i]? = some s ∧ StandsInside s place f a ∧ frame = total (steps.take i) + f := by
  constructor
  · rintro (⟨hs⟩ | ⟨hgroup,hb,hs⟩)
    · exact ⟨_,0,hs,.self _,rfl⟩
    · exact ⟨_,_,hgroup,.branch hb hs,rfl⟩
  · rintro ⟨s,f,hs,⟨⟩ | ⟨hb,ha⟩,rfl⟩
    · exact .here hs
    · exact .inside hs hb ha

theorem standsAt_zero {s a : Step} {rest : List Step} {place : List Nat} {frame : Nat} :
    StandsAt (s :: rest) (0 :: place) frame a ↔ StandsInside s place frame a := by
  rw [standsAt_iff]
  simp [total]

theorem standsAt_succ {s a : Step} {rest : List Step} {i frame : Nat} {place : List Nat} :
    StandsAt (s :: rest) ((i + 1) :: place) frame a ↔
      ∃ f, StandsAt rest (i :: place) f a ∧ frame = s.duration + f := by
  simp only [standsAt_iff, List.getElem?_cons_succ, List.take_succ_cons, total]
  constructor
  · rintro ⟨t,f,ht,ha,rfl⟩
    exact ⟨_,⟨t,f,ht,ha,rfl⟩,Nat.add_assoc ..⟩
  · rintro ⟨_,⟨t,f,ht,ha,rfl⟩,rfl⟩
    exact ⟨t,f,ht,ha,(Nat.add_assoc ..).symm⟩

mutual

def plays (start : Nat) : Step → List (List Nat × Cue)
  | .wait _ => []
  | .run stmts => [([],⟨start,.run stmts⟩)]
  | .parallel branches => playsOfBranches start 0 branches
  | .transition effect frames => [([],⟨start,.transition effect frames⟩)]

def playsOf (start i : Nat) : List Step → List (List Nat × Cue)
  | [] => []
  | s :: rest => (s.plays start).map (Prod.map (List.cons i) id) ++ playsOf (start + s.duration) (i + 1) rest

def playsOfBranches (start k : Nat) : List (List Step) → List (List Nat × Cue)
  | [] => []
  | b :: rest => (playsOf start 0 b).map (Prod.map (List.cons k) id) ++ playsOfBranches start (k + 1) rest

end

mutual

theorem snd_plays : ∀ (s : Step) (start : Nat), (s.plays start).map Prod.snd = s.cues start
  | .wait _, _ | .run _, _ | .transition _ _, _ => rfl
  | .parallel branches, start => by rw [plays, cues, snd_playsOfBranches branches]

theorem snd_playsOf : ∀ (steps : List Step) (start i : Nat),
    (playsOf start i steps).map Prod.snd = cuesOf start steps
  | [], _, _ => rfl
  | s :: rest, start, i => by
    rw [playsOf, cuesOf, List.map_append, List.map_map, snd_playsOf rest, ← snd_plays s]
    rfl

theorem snd_playsOfBranches : ∀ (branches : List (List Step)) (start k : Nat),
    (playsOfBranches start k branches).map Prod.snd = cuesOfBranches start branches
  | [], _, _ => rfl
  | b :: rest, start, k => by
    rw [playsOfBranches, cuesOfBranches, List.map_append, List.map_map, snd_playsOfBranches rest,
      ← snd_playsOf b]
    rfl

end

/-- Where steps begin at a frame, a step among them gives a cue. -/
def Gives (start : Nat) (stands : Nat → Step → Prop) (cue : Cue) : Prop :=
  ∃ frame a, stands frame a ∧ a.action? = some cue.action ∧ cue.frame = start + frame

theorem gives_succ {s : Step} {rest : List Step} {start i : Nat} {place : List Nat} {cue : Cue} :
    Gives start (StandsAt (s :: rest) ((i + 1) :: place)) cue ↔
      Gives (start + s.duration) (StandsAt rest (i :: place)) cue := by
  simp only [Gives, standsAt_succ]
  constructor
  · rintro ⟨_,a,⟨f,ha,rfl⟩,haction,hframe⟩
    exact ⟨f,a,ha,haction,by omega⟩
  · rintro ⟨f,a,ha,haction,hframe⟩
    exact ⟨_,a,⟨f,ha,rfl⟩,haction,by omega⟩

theorem gives_branch {branches : List (List Step)} {start k : Nat} {place : List Nat} {cue : Cue} :
    Gives start (StandsInside (.parallel branches) (k :: place)) cue ↔
      ∃ b, branches[k]? = some b ∧ Gives start (StandsAt b place) cue := by
  constructor
  · rintro ⟨f,a,⟨⟩ | ⟨hb,ha⟩,haction,hframe⟩
    exact ⟨_,hb,f,a,ha,haction,hframe⟩
  · rintro ⟨b,hb,f,a,ha,haction,hframe⟩
    exact ⟨f,a,.branch hb ha,haction,hframe⟩

private theorem mem_map_cons {plays : List (List Nat × Cue)} {i : Nat} {place : List Nat} {cue : Cue} :
    (place,cue) ∈ plays.map (Prod.map (List.cons i) id) ↔ ∃ q, place = i :: q ∧ (q,cue) ∈ plays := by
  constructor
  · intro h
    obtain ⟨⟨q,_⟩,hq,he⟩ := List.mem_map.mp h
    cases he
    exact ⟨q,rfl,hq⟩
  · rintro ⟨q,rfl,hq⟩
    exact List.mem_map.mpr ⟨(q,cue),hq,rfl⟩

def ListsPlays (s : Step) : Prop :=
  ∀ start place cue, (place,cue) ∈ s.plays start ↔ Gives start (StandsInside s place) cue

private theorem mem_playsOf {steps : List Step} (h : ∀ s ∈ steps, s.ListsPlays) {start i : Nat}
    {place : List Nat} {cue : Cue} : (place,cue) ∈ playsOf start i steps ↔
      ∃ j q, place = (i + j) :: q ∧ Gives start (StandsAt steps (j :: q)) cue := by
  induction steps generalizing start i with
  | nil =>
    constructor
    · nofun
    · rintro ⟨j,q,-,f,a,ha,-⟩
      rcases ha with ⟨hs⟩ | ⟨hs,-,-⟩ <;> cases hs
  | cons s rest ih =>
    obtain ⟨hs,hrest⟩ := List.forall_mem_cons.mp h
    rw [playsOf, List.mem_append, mem_map_cons, ih hrest]
    constructor
    · rintro (⟨q,rfl,hq⟩ | ⟨j,q,rfl,hq⟩)
      · obtain ⟨f,a,ha,hcue⟩ := (hs start q cue).mp hq
        exact ⟨0,q,rfl,f,a,standsAt_zero.mpr ha,hcue⟩
      · exact ⟨j + 1,q,by rw [Nat.add_assoc, Nat.add_comm 1],gives_succ.mpr hq⟩
    · rintro ⟨_ | j,q,rfl,hq⟩
      · obtain ⟨f,a,ha,hcue⟩ := hq
        exact .inl ⟨q,rfl,(hs start q cue).mpr ⟨f,a,standsAt_zero.mp ha,hcue⟩⟩
      · exact .inr ⟨j,q,by rw [Nat.add_assoc, Nat.add_comm 1],gives_succ.mp hq⟩

theorem mem_playsOf_zero {steps : List Step} (h : ∀ s ∈ steps, s.ListsPlays) {start : Nat}
    {place : List Nat} {cue : Cue} :
    (place,cue) ∈ playsOf start 0 steps ↔ Gives start (StandsAt steps place) cue := by
  rw [mem_playsOf h]
  constructor
  · rintro ⟨j,q,rfl,hq⟩
    rwa [Nat.zero_add]
  · rintro ⟨f,a,ha,hcue⟩
    cases place with
    | nil => cases ha
    | cons j q => exact ⟨j,q,by rw [Nat.zero_add],f,a,ha,hcue⟩

private theorem mem_playsOfBranches {branches : List (List Step)}
    (h : ∀ b ∈ branches, ∀ s ∈ b, s.ListsPlays) {start k : Nat} {place : List Nat} {cue : Cue} :
    (place,cue) ∈ playsOfBranches start k branches ↔
      ∃ j b q, place = (k + j) :: q ∧ branches[j]? = some b ∧ Gives start (StandsAt b q) cue := by
  induction branches generalizing k with
  | nil => simp [playsOfBranches]
  | cons b rest ih =>
    obtain ⟨hb,hrest⟩ := List.forall_mem_cons.mp h
    rw [playsOfBranches, List.mem_append, mem_map_cons, ih hrest]
    constructor
    · rintro (⟨q,rfl,hq⟩ | ⟨j,b',q,rfl,hb',hq⟩)
      · exact ⟨0,b,q,rfl,rfl,(mem_playsOf_zero hb).mp hq⟩
      · exact ⟨j + 1,b',q,by rw [Nat.add_assoc, Nat.add_comm 1],hb',hq⟩
    · rintro ⟨_ | j,b',q,rfl,hb',hq⟩
      · cases hb'
        exact .inl ⟨q,rfl,(mem_playsOf_zero hb).mpr hq⟩
      · exact .inr ⟨j,b',q,by rw [Nat.add_assoc, Nat.add_comm 1],hb',hq⟩

/-- What is listed for a step without others inside is the action it has itself, if it has one. -/
private theorem gives_self {s : Step} (hs : ∀ branches, s ≠ .parallel branches) {start : Nat}
    {place : List Nat} {cue : Cue} : Gives start (StandsInside s place) cue ↔
      place = [] ∧ s.action? = some cue.action ∧ cue.frame = start := by
  constructor
  · rintro ⟨f,a,⟨⟩ | ⟨-,-⟩,haction,hframe⟩
    · exact ⟨rfl,haction,hframe⟩
    · exact absurd rfl (hs _)
  · rintro ⟨rfl,haction,hframe⟩
    exact ⟨0,s,.self s,haction,hframe⟩

theorem listsPlays (s : Step) : s.ListsPlays := by
  induction s with
  | wait frames =>
    intro start place cue
    simp [gives_self, plays, action?]
  | run stmts =>
    intro start place cue
    rcases cue with ⟨frame,action⟩
    rw [gives_self (by simp), plays, List.mem_singleton, action?]
    simp [eq_comm, and_comm]
  | transition effect frames =>
    intro start place cue
    rcases cue with ⟨frame,action⟩
    rw [gives_self (by simp), plays, List.mem_singleton, action?]
    simp [eq_comm, and_comm]
  | parallel branches h =>
    intro start place cue
    rw [plays, mem_playsOfBranches h]
    cases place with
    | nil =>
      constructor
      · rintro ⟨j,b,q,⟨⟩,-⟩
      · rintro ⟨f,a,⟨⟩,haction,-⟩
        cases haction
    | cons k place =>
      rw [gives_branch]
      constructor
      · rintro ⟨j,b,q,he,hb⟩
        rw [Nat.zero_add] at he
        cases he
        exact ⟨b,hb⟩
      · rintro ⟨b,hb⟩
        exact ⟨k,b,place,by rw [Nat.zero_add],hb⟩

private theorem ordered_map_cons {plays : List (List Nat × Cue)} (i : Nat)
    (h : plays.Pairwise fun x y => x.1 < y.1) :
    (plays.map (Prod.map (List.cons i) id)).Pairwise fun x y => x.1 < y.1 := by
  rw [List.pairwise_map]
  exact h.imp fun hlt => List.cons_lt_cons_iff.mpr (.inr ⟨rfl,hlt⟩)

mutual

/-- Cues are listed in the order of their places. -/
theorem ordered_plays : ∀ (s : Step) (start : Nat), (s.plays start).Pairwise fun x y => x.1 < y.1
  | .wait _, _ => .nil
  | .run _, _ | .transition _ _, _ => List.pairwise_singleton ..
  | .parallel branches, start => ordered_playsOfBranches branches start 0

theorem ordered_playsOf : ∀ (steps : List Step) (start i : Nat),
    (playsOf start i steps).Pairwise fun x y => x.1 < y.1
  | [], _, _ => .nil
  | s :: rest, start, i => by
    rw [playsOf, List.pairwise_append]
    refine ⟨ordered_map_cons i (ordered_plays s start),ordered_playsOf rest _ _,?_⟩
    rintro ⟨_,_⟩ hx ⟨_,_⟩ hy
    obtain ⟨q,rfl,-⟩ := mem_map_cons.mp hx
    obtain ⟨j,q',rfl,-⟩ := (mem_playsOf fun t _ => listsPlays t).mp hy
    exact List.cons_lt_cons_iff.mpr (.inl (by omega))

theorem ordered_playsOfBranches : ∀ (branches : List (List Step)) (start k : Nat),
    (playsOfBranches start k branches).Pairwise fun x y => x.1 < y.1
  | [], _, _ => .nil
  | b :: rest, start, k => by
    rw [playsOfBranches, List.pairwise_append]
    refine ⟨ordered_map_cons k (ordered_playsOf b start 0),ordered_playsOfBranches rest _ _,?_⟩
    rintro ⟨_,_⟩ hx ⟨_,_⟩ hy
    obtain ⟨q,rfl,-⟩ := mem_map_cons.mp hx
    obtain ⟨j,b',q',rfl,-⟩ := (mem_playsOfBranches fun _ _ t _ => listsPlays t).mp hy
    exact List.cons_lt_cons_iff.mpr (.inl (by omega))

end

end Step

end Cartridge.Cutscene
