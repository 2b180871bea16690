import Cartridge.Proofs.Cutscene.Timeline
import Cartridge.Proofs.Program.Inert

/-!
The sections of a file in which texts of the author's stand on lines as they are: statements, the
names of variables and the tags of colliding pairs. Each section stays on its lines if and only if
those texts do.
-/
namespace Cartridge.Program

open Code Code.Emission Lower Text

def stateStmts (m : Machine) (state : Machine.State) : List Stmt :=
  state.handlers ++ (Machine.Emit.chain m (Machine.Emit.leaving m state)).toList

def shownPairs (s : Scope) : List Physics.Pair :=
  match s.game.physics with
  | some w => if s.game.instances.isEmpty then [] else Physics.Emit.livePairs s.game w
  | none => []

def lowered (s : Scope) : Section → List Stmt
  | .cutsceneFunctions => s.game.cutscenes.flatMap fun c => Cutscene.Step.stmtsOf c.steps
  | .stateMachineUpdate => s.game.machines.flatMap fun m => m.states.flatMap (stateStmts m)
  | .physicsFunctions => (shownPairs s).flatMap Physics.Pair.onHit
  | .sceneFunctions => s.game.scenes.flatMap Scene.handlers
  | _ => []

/-- The names that a section puts on lines as they are, apart from those in its statements. -/
def plainNames (s : Scope) : Section → List String
  | .globals => s.game.scalars.map Variable.name ++ s.game.arrays.map ArrayDecl.name
  | .physicsFunctions => (shownPairs s).flatMap fun p => [p.tagA, p.tagB]
  | _ => []

variable {s : Scope} {stmts : List Stmt}

/-- Where there is no statement, nothing is asked of one. -/
theorem forall_filter_isEmpty {α : Type} {xs : List α} {body : α → List Stmt} {P : Stmt → Prop} :
    (∀ x ∈ xs.filter fun x => !(body x).isEmpty, ∀ a ∈ body x, P a) ↔
      ∀ x ∈ xs, ∀ a ∈ body x, P a := by
  refine ⟨fun h x hx a ha => h x (List.mem_filter.mpr ⟨hx,?_⟩) a ha,
    fun h x hx => h x (List.mem_filter.mp hx).1⟩
  simpa using List.ne_nil_of_mem ha

section scenes

open Scene.Emit

theorem body_subset_handlers (h : Hook) (scene : Scene) : h.body scene ⊆ scene.handlers := by
  intro a ha
  cases h <;> simp_all [Hook.body, Scene.handlers]

theorem forall_hooks {P : Stmt → Prop} {scene : Scene} :
    (∀ h ∈ hooks scene, ∀ a ∈ h.body scene, P a) ↔ ∀ a ∈ scene.handlers, P a := by
  rw [hooks, forall_filter_isEmpty]
  simp [Hook.all, Hook.body, Scene.handlers, or_imp, forall_and]

/-- The functions of scenes stay on their lines if the statements of their handlers do. -/
theorem laid_scenes (h : ∀ a ∈ lowered s .sceneFunctions, a ∈ stmts) :
    (Scene.Emit.functions s).Laid (EmittedFor s (Stmt.walkAll stmts))
      (∀ a ∈ lowered s .sceneFunctions, KeepsLines s a) := by
  have hscene (scene : Scene) (hscene : scene ∈ s.game.scenes) :
      (handlerFunctions s scene).Laid (EmittedFor s (Stmt.walkAll stmts))
        (∀ a ∈ scene.handlers, KeepsLines s a) := by
    refine .congr (.each fun hook _ => .function (laid_block fun a ha => ?_)
      (unbroken_handler hook scene)) forall_hooks
    exact h a (List.mem_flatMap.mpr ⟨scene,hscene,body_subset_handlers hook scene ha⟩)
  have hdispatch (hook : Hook) : (dispatch s hook).Inert := by
    refine inert_function.mpr ⟨unbroken_dispatcher hook,.choice (.each fun scene _ => ?_) ?_⟩
    · simp +decide [Hook.handler, Header.procedure, unbroken_hook]
    · cases hook <;> decide
  rw [Scene.Emit.functions]
  split
  next hempty => exact (inert_pure ()).laid.congr (by simp [lowered, List.isEmpty_iff.mp hempty])
  next =>
    refine .congr (.after (.before (.each hscene) ?_) (by simp)) List.forall_mem_flatMap.symm
    simp [hdispatch, change, applyPending]
    and_intros <;> intros <;> and_intros <;> exact unbroken_literal (by decide)

end scenes

section machines

open Machine.Emit

theorem laid_dispatch {m : Machine} {occasion : String} {handler : Machine.State → List Stmt}
    (hoccasion : Unbroken occasion) (h : ∀ state ∈ m.states, ∀ a ∈ handler state, a ∈ stmts) :
    (dispatch s m occasion handler).Laid (EmittedFor s (Stmt.walkAll stmts))
      (∀ state ∈ m.states, ∀ a ∈ handler state, KeepsLines s a) := by
  refine .congr (.function (.choice (.each fun state hstate => .arm (laid_block ?_) ?_) ?_) ?_)
    forall_filter_isEmpty
  · exact h state (List.mem_filter.mp hstate).1
  · simp +decide [label]
  · decide
  · simp +decide [dispatcher, hoccasion]

theorem laid_machine {m : Machine} (h : ∀ state ∈ m.states, ∀ a ∈ stateStmts m state, a ∈ stmts) :
    (machine s m).Laid (EmittedFor s (Stmt.walkAll stmts))
      (∀ state ∈ m.states, ∀ a ∈ stateStmts m state, KeepsLines s a) := by
  simp only [stateStmts, Machine.State.handlers, List.mem_append, or_imp, forall_and] at h ⊢
  obtain ⟨⟨⟨henter,hupdate⟩,hexit⟩,hchain⟩ := h
  have hvariable : Unbroken (variableName m) := by simp +decide [variableName]
  have harm (state : Machine.State) (hstate : state ∈ m.states) :
      (updateArm s m state).Laid (EmittedFor s (Stmt.walkAll stmts))
        ((∀ a ∈ state.onUpdate, KeepsLines s a) ∧
          ∀ a ∈ (chain m (leaving m state)).toList, KeepsLines s a) :=
    .arm ((laid_block (hupdate state hstate)).bind (laid_block (hchain state hstate)))
      (by simp +decide [label])
  have hchange : (function (change m) (verbatim [s!"{Name.ident m.name}_exit({variableName m});",
      s!"{variableName m} = to;", s!"{Name.ident m.name}_enter(to);"])).Inert := by
    simp +decide [change, hvariable]
  have hstart : (function (start m) (verbatim
      [s!"{variableName m} = {Name.state m.name m.initial};",
        s!"{Name.ident m.name}_enter({variableName m});"])).Inert := by
    simp +decide [start, hvariable]
  have hfunctions := (Laid.each harm).choice hvariable |>.function
    (show Unbroken (update m).signature by simp +decide [update])
  refine .congr (.after ((laid_dispatch (by decide) henter).bind
    ((laid_dispatch (by decide) hexit).bind ((hfunctions.after hstart).after hchange)))
    (inert_ofConfig _)) ?_
  rw [forall₂_and]
  tauto

/-- The functions of state machines stay on their lines if their statements do. -/
theorem laid_machines (h : ∀ a ∈ lowered s .stateMachineUpdate, a ∈ stmts) :
    (Machine.Emit.functions s).Laid (EmittedFor s (Stmt.walkAll stmts))
      (∀ a ∈ lowered s .stateMachineUpdate, KeepsLines s a) := by
  simp only [lowered, List.forall_mem_flatMap] at h ⊢
  exact .listed fun m hm => laid_machine (h m hm)

end machines

section cutscenes

open Cutscene.Emit

/-- The groups of cues cover the statements of a cutscene. -/
theorem forall_groups {P : Stmt → Prop} {c : Cutscene} :
    (∀ group ∈ groups c.schedule, ∀ action ∈ group.2, ∀ a ∈ action.stmts, P a) ↔
      ∀ a ∈ Cutscene.Step.stmtsOf c.steps, P a := by
  rw [← List.forall_mem_flatMap (f := Prod.snd), actions_groups, List.forall_mem_map]
  simp only [← Cutscene.mem_schedule, forall_exists_index, and_imp]
  exact ⟨fun h a cue hcue ha => h cue hcue a ha,fun h cue hcue a ha => h a cue hcue ha⟩

theorem laid_action {action : Cutscene.Action} (h : ∀ a ∈ action.stmts, a ∈ stmts) :
    (Cutscene.Emit.action s action).Laid (EmittedFor s (Stmt.walkAll stmts))
      (∀ a ∈ action.stmts, KeepsLines s a) := by
  cases action with
  | run body => exact laid_block h
  | transition effect frames =>
    have heffect : Unbroken (Cutscene.Fade.effectName effect) := by cases effect <;> decide
    refine (Inert.laid ?_).congr (by simp [Cutscene.Action.stmts])
    simp [Cutscene.Emit.action, heffect]
    and_intros <;> exact unbroken_literal (by decide)

theorem laid_cutscene {c : Cutscene} (h : ∀ a ∈ Cutscene.Step.stmtsOf c.steps, a ∈ stmts) :
    (cutscene s c).Laid (EmittedFor s (Stmt.walkAll stmts))
      (∀ a ∈ Cutscene.Step.stmtsOf c.steps, KeepsLines s a) := by
  have hframe : Unbroken (frameName c) := by simp +decide [frameName, base]
  have hactive : Unbroken (activeName c) := by simp +decide [activeName, base]
  have hswitch : (frameSwitch s c).Laid (EmittedFor s (Stmt.walkAll stmts))
      (∀ a ∈ Cutscene.Step.stmtsOf c.steps, KeepsLines s a) := by
    rw [← forall_groups] at h ⊢
    rw [frameSwitch]
    split
    next hnone => exact (inert_pure ()).laid.congr (by simp [hnone])
    next =>
      refine .choice (.each fun group hgroup => .arm (.each fun action haction => ?_) ?_) hframe
      · exact laid_action (h group hgroup action haction)
      · simp +decide
  have hbody : (stepBody s c).Laid (EmittedFor s (Stmt.walkAll stmts))
      (∀ a ∈ Cutscene.Step.stmtsOf c.steps, KeepsLines s a) := by
    refine .after (hswitch.before ?_) ?_
    · simp [hframe, hactive]
      and_intros <;> exact unbroken_literal (by decide)
    · simp [hactive]
      and_intros <;> exact unbroken_literal (by decide)
  have hstep : Unbroken (step c).signature := by simp [step]
  refine .after (.after (.after (.after (hbody.function hstep) ?_) ?_) ?_) ?_
  · simp +decide [start, base, hframe, hactive]
  · simp
  · simp +decide [hframe, hactive]
  · exact inert_ofOption _

/-- The functions of cutscenes stay on their lines if their statements do. -/
theorem laid_cutscenes (h : ∀ a ∈ lowered s .cutsceneFunctions, a ∈ stmts) :
    (Cutscene.Emit.emit s).Laid (EmittedFor s (Stmt.walkAll stmts))
      (∀ a ∈ lowered s .cutsceneFunctions, KeepsLines s a) := by
  simp only [lowered, List.forall_mem_flatMap] at h ⊢
  exact .listed fun c hc => laid_cutscene (h c hc)

end cutscenes

section physics

open Physics.Emit

theorem laid_pair {p : Physics.Pair} (h : ∀ a ∈ p.onHit, a ∈ stmts) :
    (pairLoops s p).Laid (EmittedFor s (Stmt.walkAll stmts))
      ((Unbroken p.tagA ∧ Unbroken p.tagB) ∧ ∀ a ∈ p.onHit, KeepsLines s a) := by
  have hcomment : Unbroken s!"/* {p.tagA} / {p.tagB} */" ↔ Unbroken p.tagA ∧ Unbroken p.tagB := by
    simp +decide
  refine .bind ((laid_mark _).congr (by simpa using hcomment)) ?_
  refine .after (.after (.after (.after (.after (.before (laid_block h) ?_) ?_) ?_) ?_) ?_) ?_
  · simp
  all_goals simp
  all_goals and_intros <;> intros <;> exact unbroken_literal (by decide)

theorem laid_world {w : Physics.World} (hw : s.game.physics = some w)
    (h : ∀ p ∈ shownPairs s, ∀ a ∈ p.onHit, a ∈ stmts) :
    (world s w).Laid (EmittedFor s (Stmt.walkAll stmts))
      (∀ p ∈ shownPairs s,
        (Unbroken p.tagA ∧ Unbroken p.tagB) ∧ ∀ a ∈ p.onHit, KeepsLines s a) := by
  have hstep : Unbroken step.signature := by decide
  simp only [shownPairs, hw] at h ⊢
  rw [world]
  refine .after (.after ?_ (by simp)) (inert_ofConfig _)
  split
  next hempty => exact (Inert.laid (by simpa using hstep)).congr (by simp)
  next hne =>
    have hcollide : (collideBody s w).Laid (EmittedFor s (Stmt.walkAll stmts))
        (∀ p ∈ livePairs s.game w,
          (Unbroken p.tagA ∧ Unbroken p.tagB) ∧ ∀ a ∈ p.onHit, KeepsLines s a) := by
      rw [collideBody]
      split
      next hnone => exact (inert_pure ()).laid.congr (by simp [hnone])
      next =>
        refine .after (.each fun p hp => laid_pair (h p (by simpa [hne] using hp))) ?_
        simp only [line, inert_emit, List.forall_mem_singleton, Item.inert_mark,
          Mark.keepsLine_line]
        exact unbroken_literal (by decide)
    refine .after (.after (.after (.after (.after (.after
      (.before (hcollide.function ?_) ?_) ?_) ?_) ?_) ?_) ?_) ?_
    · decide
    · simpa using ⟨hstep,unbroken_literal (by decide),unbroken_literal (by decide)⟩
    · refine inert_function.mpr ⟨?_,inert_separate⟩
      exact unbroken_literal (by decide)
    · simp [bounce, bounceBody]
      and_intros <;> exact unbroken_literal (by decide)
    · refine inert_function.mpr ⟨?_,inert_integrate⟩
      exact unbroken_literal (by decide)
    · refine inert_function.mpr ⟨?_,inert_gravity w⟩
      exact unbroken_literal (by decide)
    · simp
    · simpa using areUnbroken_bodyTables w s.game.instances

/-- The functions of physics stay on their lines if the tags and statements of the pairs do. -/
theorem laid_physics (h : ∀ a ∈ lowered s .physicsFunctions, a ∈ stmts) :
    (Physics.Emit.emit s).Laid (EmittedFor s (Stmt.walkAll stmts))
      ((∀ name ∈ plainNames s .physicsFunctions, Unbroken name) ∧
        ∀ a ∈ lowered s .physicsFunctions, KeepsLines s a) := by
  simp only [lowered, plainNames, List.forall_mem_flatMap] at h ⊢
  rw [Physics.Emit.emit]
  split
  next w hw => exact (laid_world hw h).congr (by simp [forall_and])
  next hnone => exact (inert_pure ()).laid.congr (by simp [shownPairs, hnone])

end physics

section globals

open Game.Globals

/-- The global variables stay on their lines if their names do. -/
theorem laid_globals {noted : Location → List Item → Prop} :
    (Game.Globals.emit s).Laid noted (∀ name ∈ plainNames s .globals, Unbroken name) := by
  have htype (t : VarType) : Unbroken t.cType := by cases t <;> decide
  have hvariable (v : Variable) : Unbroken (variableText v) ↔ Unbroken v.name := by
    simp +decide [variableText, htype]
  have harray (a : ArrayDecl) : (array a).Laid noted (Unbroken a.name) := by
    refine .after (.after ((laid_mark _).congr ?_) ?_) (inert_ofConfig _)
    · simp +decide [htype]
    · simp
  rw [Game.Globals.emit]
  split
  next hempty =>
    refine (inert_pure ()).laid.congr ?_
    simp at hempty
    simp [plainNames, hempty]
  next =>
    refine .congr (.after (.bind (laid_verbatim _)
      (.before (.each fun a _ => harray a) ?_)) (by simp)) ?_
    · simp
    · simp [plainNames, hvariable, or_imp, forall_and]

end globals

/-- A section stays on its lines if and only if its names and statements do, and its places are
those of statements whose code begins there. -/
theorem laid_content {place : Section} (h : ∀ a ∈ lowered s place, a ∈ stmts) :
    (content s place).Laid (EmittedFor s (Stmt.walkAll stmts))
      ((∀ name ∈ plainNames s place, Unbroken name) ∧ ∀ a ∈ lowered s place, KeepsLines s a) := by
  have hinert {m : Emission Unit} (hm : m.Inert) (hnames : plainNames s place = [])
      (hstmts : lowered s place = []) : m.Laid (EmittedFor s (Stmt.walkAll stmts))
        ((∀ name ∈ plainNames s place, Unbroken name) ∧
          ∀ a ∈ lowered s place, KeepsLines s a) :=
    hm.laid.congr (by simp [hnames, hstmts])
  cases place with
  | sceneFunctions => exact (laid_scenes h).congr (by simp [plainNames])
  | stateMachineUpdate => exact (laid_machines h).congr (by simp [plainNames])
  | cutsceneFunctions => exact (laid_cutscenes h).congr (by simp [plainNames])
  | physicsFunctions => exact laid_physics h
  | globals => exact laid_globals.congr (by simp [lowered])
  | collisionHelpers => exact hinert inert_overlapHelper rfl rfl
  | saveData => exact hinert inert_save rfl rfl
  | poolData => exact hinert inert_poolData rfl rfl
  | stateMachineEnums => exact hinert inert_stateNumbers rfl rfl
  | sceneEnum => exact hinert inert_sceneNumbers rfl rfl
  | poolFunctions => exact hinert inert_poolFunctions rfl rfl
  | cameraTransition => exact hinert inert_fades rfl rfl
  | navigation => exact hinert inert_navigation rfl rfl
  | entryPoint => exact hinert inert_entryPoint rfl rfl
  | _ => exact hinert (inert_pure ()) rfl rfl

end Cartridge.Program
