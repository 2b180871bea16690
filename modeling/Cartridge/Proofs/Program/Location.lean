import Cartridge.Proofs.Lower.Erase
import Cartridge.Proofs.Program.Strict

/-!
Places never reach the code of a file. Section by section, a game and the same game without places
are emitted alike, and what is alike is rendered to the same text.
-/
namespace Cartridge

def Diagnostic.unplaced (x : Diagnostic) : Diagnostic := { x with location := none }

def Diagnostics.unplaced (d : Diagnostics) : Diagnostics :=
  { d with errors := d.errors.map .unplaced, warnings := d.warnings.map .unplaced }

theorem Diagnostics.unplaced_pushError (d : Diagnostics) (x : Diagnostic) :
    (d.pushError x).unplaced = d.unplaced.pushError x.unplaced := by
  simp [unplaced, pushError]

theorem Diagnostics.unplaced_downgrade (d : Diagnostics) :
    d.downgrade.warnings.map .unplaced = d.unplaced.downgrade.warnings := by
  simp only [downgrade_warnings, unplaced, List.map_append, List.map_map]
  rfl

namespace Code.Context

def strip (c : Context) : Context :=
  { c with diagnostics := c.diagnostics.unplaced, sourceMap := .empty }

theorem strip_render {mapped : Bool} {c d : Context} {i : Item} (h : c.render? mapped i = some d) :
    i.strip.elim (some c.strip) (c.strip.render? false) = some d.strip := by
  obtain ⟨hpage,-,hd⟩ := render?_eq_some h
  have hstrokes : (i.strokes c.strip.current).foldlM Stroke.write? c.strip.page = some d.page := hpage
  cases i with
  | origin l =>
    have hsame : c.page = d.page := Option.some_inj.mp hpage
    rw [hd, ← hsame]
    rfl
  | problem rule message location =>
    have hstrokes : (Item.strokes c.strip.current (.problem rule message none)).foldlM Stroke.write?
        c.strip.page = some d.page := hstrokes
    rw [Item.strip, Option.elim_some, render?_eq, hstrokes]
    conv_rhs => rw [hd]
    simp only [strip, noted, Diagnostics.unplaced_pushError]
    rfl
  | _ =>
    simp only [Item.strip, Option.elim_some, render?_eq, hstrokes]
    conv_rhs => rw [hd]
    rfl

/-- Forgetting places first or last makes no difference. -/
theorem strip_renderAll {mapped : Bool} {c d : Context} {items : List Item}
    (h : c.renderAll? mapped items = some d) :
    c.strip.renderAll? false (items.filterMap Item.strip) = some d.strip := by
  induction items generalizing c with
  | nil => cases h; rfl
  | cons i items ih =>
    obtain ⟨e,he,hd⟩ := foldlM_cons_eq_some.mp h
    have hstep := strip_render he
    rw [List.filterMap_cons]
    cases hi : i.strip with
    | none =>
      rw [hi] at hstep
      rw [Option.some_inj.mp hstep]
      exact ih hd
    | some j =>
      rw [hi] at hstep
      exact foldlM_cons_eq_some.mpr ⟨_,hstep,ih hd⟩

end Code.Context

namespace Program

open Code Code.Emission Lower Stmt

variable {s : Scope}

section scenes

open Scene.Emit

@[simp] theorem body_erase (h : Hook) (scene : Scene) :
    h.body scene.erase = eraseAll (h.body scene) := by
  cases h <;> rfl

@[simp] theorem hooks_erase (scene : Scene) : hooks scene.erase = hooks scene := by
  simp only [hooks, body_erase, isEmpty_eraseAll]

theorem alike_scene (scene : Scene) :
    (handlerFunctions s scene).Alike (handlerFunctions s.erase scene.erase) := by
  rw [handlerFunctions, handlerFunctions, hooks_erase]
  refine .each fun h _ => ?_
  rw [body_erase]
  exact (alike_block _).function _

theorem dispatch_erase (h : Hook) : dispatch s.erase h = dispatch s h := by
  simp only [dispatch, Scope.erase, Game.erase_scenes, List.filter_map, Function.comp_def,
    body_erase, isEmpty_eraseAll, each_map]
  rfl

theorem alike_scenes : (functions s).Alike (functions s.erase) := by
  have hempty : s.erase.game.scenes.isEmpty = s.game.scenes.isEmpty := List.isEmpty_map
  have hdispatch : dispatch s.erase = dispatch s := funext dispatch_erase
  rw [functions, functions, hempty, hdispatch]
  split
  · exact .refl _
  · refine .bind_right fun _ => .bind_left ?_
    rw [Scope.erase, Game.erase_scenes, each_map]
    exact .each fun scene _ => alike_scene scene

theorem sceneNumbers_erase : numbers s.erase = numbers s := by
  simp only [numbers, Scope.erase, Game.erase_scenes, List.isEmpty_map, List.map_map]
  rfl

theorem entryPoint_erase : entryPoint s.erase = entryPoint s := by
  have hstart : start? s.game.erase = start? s.game := by
    rw [start?, Game.startScene?_erase, Game.sceneIndex?_erase, Game.erase_scenes, List.head?_map,
      Option.map_map]
    rfl
  simp only [entryPoint, setUp, perFrame, Scope.erase, hstart, Game.isUsed_erase,
    Game.erase_machines, Game.erase_cutscenes, Game.erase_physics, List.map_map, Option.isSome_map]
  rfl

end scenes

section machines

open Machine.Emit

theorem alike_dispatch (m : Machine) (occasion : String) {handler : Machine.State → List Stmt}
    (h : ∀ state, handler state.erase = eraseAll (handler state)) :
    (dispatch s m occasion handler).Alike (dispatch s.erase m.erase occasion handler) := by
  have hstates : m.erase.states.filter (fun state => !(handler state).isEmpty) =
      (m.states.filter fun state => !(handler state).isEmpty).map Machine.State.erase := by
    simp only [Machine.erase, List.filter_map, Function.comp_def, h, isEmpty_eraseAll]
  rw [dispatch, dispatch, hstates, each_map]
  refine .function (.choice (.each fun state _ => .arm ?_ _) _) _
  rw [h]
  exact alike_block _

/-- Transitions have no places of their own. -/
theorem chain_erase (m : Machine) (transitions : List Machine.Transition) :
    chain m.erase transitions = (chain m transitions).map Stmt.erase := by
  induction transitions with
  | nil => rfl
  | cons t rest ih =>
    rw [chain, chain, ih]
    cases chain m rest <;> rfl

theorem alike_updateArm (m : Machine) (state : Machine.State) :
    (updateArm s m state).Alike (updateArm s.erase m.erase state.erase) := by
  have hchain : (chain m.erase (leaving m.erase state.erase)).toList =
      eraseAll (chain m (leaving m state)).toList := by
    rw [show leaving m.erase state.erase = leaving m state from rfl, chain_erase]
    cases chain m (leaving m state) <;> rfl
  rw [updateArm, updateArm, hchain]
  exact .arm (.bind (alike_block _) fun _ => alike_block _) _

theorem alike_machine (m : Machine) : (machine s m).Alike (machine s.erase m.erase) := by
  rw [machine, machine, Machine.validate_erase]
  refine .bind_right fun _ => .bind (alike_dispatch m _ fun _ => rfl) fun _ =>
    .bind (alike_dispatch m _ fun _ => rfl) fun _ => .bind_right fun _ =>
      .bind_right fun _ => .function (.choice ?_ _) _
  rw [Machine.erase, each_map]
  exact .each fun state _ => alike_updateArm m state

theorem alike_machines : (functions s).Alike (functions s.erase) := by
  have hempty : s.erase.game.machines.isEmpty = s.game.machines.isEmpty := List.isEmpty_map
  rw [functions, functions, hempty]
  split
  · exact .refl _
  · refine .bind_right fun _ => ?_
    rw [Scope.erase, Game.erase_machines, each_map]
    exact .each fun m _ => alike_machine m

theorem stateNumbers_erase : numbers s.erase = numbers s := by
  have hnumbers (m : Machine) : stateNumbers m.erase = stateNumbers m := by
    rw [stateNumbers, Machine.erase, List.map_map]
    rfl
  simp only [numbers, Scope.erase, Game.erase_machines, List.isEmpty_map, each_map,
    Machine.validate_erase, List.flatMap_map, hnumbers]

end machines

section physics

open Physics.Emit

theorem alike_pair (p : Physics.Pair) : (pairLoops s p).Alike (pairLoops s.erase p.erase) := by
  rw [pairLoops, pairLoops]
  exact .bind_right fun _ => .bind_right fun _ => .bind_right fun _ => .bind_right fun _ =>
    .bind_right fun _ => .bind_right fun _ => (alike_block _).bind_left

theorem alike_collide (w : Physics.World) :
    (collideBody s w).Alike (collideBody s.erase w.erase) := by
  have hpairs : livePairs s.erase.game w.erase = (livePairs s.game w).map Physics.Pair.erase :=
    List.filter_map
  have heach (pairs : List Physics.Pair) :
      (each (pairLoops s) pairs).Alike
        (each (pairLoops s.erase) (pairs.map Physics.Pair.erase)) := by
    rw [each_map]
    exact .each fun p _ => alike_pair p
  rw [collideBody, collideBody, hpairs]
  cases livePairs s.game w with
  | nil => exact .refl _
  | cons p pairs => exact .bind_right fun _ => heach (p :: pairs)

theorem alike_world (w : Physics.World) : (world s w).Alike (world s.erase w.erase) := by
  rw [world, world, show s.erase.game.instances = s.game.instances from rfl]
  refine .bind_right fun _ => .bind_right fun _ => ?_
  split
  · exact .refl _
  · exact .bind_right fun _ => .bind_right fun _ => .bind_right fun _ =>
      .bind_right fun _ => .bind_right fun _ => .bind_right fun _ =>
        .bind_left ((alike_collide w).function _)

theorem alike_physics : (Physics.Emit.emit s).Alike (Physics.Emit.emit s.erase) := by
  rw [Physics.Emit.emit, Physics.Emit.emit, Scope.erase, Game.erase_physics]
  cases s.game.physics with
  | none => exact .refl _
  | some w => exact alike_world w

theorem overlapHelper_erase : overlapHelper s.erase = overlapHelper s := by
  simp only [overlapHelper, Scope.erase, Game.erase_physics, Option.isSome_map]

end physics

section cutscenes

open Cutscene Cutscene.Emit

theorem alike_action (a : Action) : (action s a).Alike (action s.erase a.erase) := by
  cases a with
  | run stmts => exact alike_block stmts
  | transition effect frames => exact .refl _

theorem groups_erase (cues : List Cue) :
    groups (cues.map Cue.erase) = (groups cues).map fun g => (g.1, g.2.map Action.erase) := by
  induction cues with
  | nil => rfl
  | cons cue rest ih =>
    rw [List.map_cons, groups, groups, ih]
    rcases groups rest with _ | ⟨⟨frame,actions⟩,later⟩
    · rfl
    · by_cases h : frame = cue.frame
      · simp [h, Cue.erase]
      · simp [h, Cue.erase]

theorem alike_frames (c : Cutscene) : (frameSwitch s c).Alike (frameSwitch s.erase c.erase) := by
  have harm (frame : Nat) (actions : List Action) :
      (frameArm s frame actions).Alike (frameArm s.erase frame (actions.map Action.erase)) := by
    rw [frameArm, frameArm, each_map]
    exact .arm (.each fun a _ => alike_action a) _
  have heach (cues : List (Nat × List Action)) :
      (each (fun g => frameArm s g.1 g.2) cues).Alike
        (each (fun g => frameArm s.erase g.1 g.2)
          (cues.map fun g => (g.1, g.2.map Action.erase))) := by
    rw [each_map]
    exact .each fun g _ => harm g.1 g.2
  rw [frameSwitch, frameSwitch, schedule_erase, groups_erase]
  cases groups c.schedule with
  | nil => exact .refl _
  | cons cue cues => exact .choice (heach (cue :: cues)) _

theorem alike_cutscene (c : Cutscene) : (cutscene s c).Alike (cutscene s.erase c.erase) := by
  rw [cutscene, cutscene, stepBody, stepBody, duration_erase]
  exact .bind_right fun _ => .bind_right fun _ => .bind_right fun _ =>
    .bind_right fun _ => .function
      (.bind_right fun _ => (alike_frames c).bind_left) _

theorem alike_cutscenes : (Cutscene.Emit.emit s).Alike (Cutscene.Emit.emit s.erase) := by
  have hempty : s.erase.game.cutscenes.isEmpty = s.game.cutscenes.isEmpty := List.isEmpty_map
  rw [Cutscene.Emit.emit, Cutscene.Emit.emit, hempty]
  split
  · exact .refl _
  · refine .bind_right fun _ => ?_
    rw [Scope.erase, Game.erase_cutscenes, each_map]
    exact .each fun c _ => alike_cutscene c

theorem fade_erase : Fade.emit s.erase = Fade.emit s := by
  simp only [Fade.emit, Scope.erase, Game.isUsed_erase]

end cutscenes

section pools

open Game.Slots

theorem livePools_erase : livePools s.game.erase = livePools s.game := by
  rw [livePools, Game.poolRange?_erase]
  rfl

theorem slots_erase : data s.erase = data s := by
  have hconstants : rangeConstants s.game.erase = rangeConstants s.game := by
    funext p
    rw [rangeConstants, Game.poolRange?_erase]
    rfl
  have htable : table s.game.erase = table s.game := by
    rw [table, hconstants]
    rfl
  rw [data, Scope.erase, htable]
  rfl

theorem poolFunctions_erase : functions s.erase = functions s := by
  rw [functions, Scope.erase, livePools_erase]
  rfl

end pools

section checks

open Check

theorem names_erase (g : Game) : names g.erase = names g := by
  have hstates (m : Machine) :
      m.erase.states.map Machine.State.name = m.states.map Machine.State.name := List.map_map
  simp only [names, Game.erase_scenes, Game.erase_machines, Game.erase_cutscenes, List.map_map,
    each_map, hstates]
  rfl

theorem checks_erase : Check.emit s.erase = Check.emit s := by
  have hscenes : scenes s.game.erase = scenes s.game := by
    simp only [scenes, Game.isNone_scene?_erase, Game.erase_scenes, List.isEmpty_map]
    rfl
  have hphysics : physics s.game.erase = physics s.game := by
    rw [physics, physics, Game.erase_physics]
    cases s.game.physics with
    | none => rfl
    | some w =>
      simp only [Option.map_some, Physics.World.erase, each_map]
      rfl
  have hcutscene (c : Cutscene) : cutscene c.erase = cutscene c := by
    rw [cutscene, cutscene, Cutscene.duration_erase]
    rfl
  have hcutscenes : cutscenes s.game.erase = cutscenes s.game := by
    simp only [cutscenes, Game.erase_cutscenes, each_map, hcutscene]
  rw [Check.emit, Scope.erase, hscenes, names_erase, hphysics, hcutscenes]
  rfl

end checks

theorem prototypes_erase : prototypes s.erase = prototypes s := by
  have hplace (place : Section) : prototypesOf s.erase place = prototypesOf s place := by
    cases place with
    | collisionHelpers =>
      simp only [prototypesOf, Physics.Emit.overlapPrototypes, Scope.erase, Game.erase_physics,
        Option.isSome_map]
    | poolFunctions =>
      rw [prototypesOf, Game.Slots.prototypes, Scope.erase, livePools_erase]
      rfl
    | cutsceneFunctions =>
      rw [prototypesOf, Cutscene.Emit.prototypes, Scope.erase, Game.erase_cutscenes,
        List.flatMap_map]
      rfl
    | stateMachineUpdate =>
      rw [prototypesOf, Machine.Emit.prototypes, Scope.erase, Game.erase_machines, List.flatMap_map]
      rfl
    | cameraTransition =>
      simp only [prototypesOf, Cutscene.Fade.prototypes, Scope.erase, Game.isUsed_erase]
    | physicsFunctions =>
      simp only [prototypesOf, Physics.Emit.prototypes, Scope.erase, Game.erase_physics,
        Option.isSome_map]
    | sceneFunctions =>
      simp only [prototypesOf, Scene.Emit.prototypes, Scope.erase, Game.erase_scenes,
        List.isEmpty_map, List.flatMap_map, hooks_erase]
      rfl
    | _ => rfl
  rw [prototypes, funext hplace]
  rfl

/-- Without places, every section is emitted alike. -/
theorem alike_content (place : Section) : (content s place).Alike (content s.erase place) := by
  cases place with
  | collisionHelpers => exact .of_eq overlapHelper_erase.symm
  | poolData => exact .of_eq slots_erase.symm
  | stateMachineEnums => exact .of_eq stateNumbers_erase.symm
  | sceneEnum => exact .of_eq sceneNumbers_erase.symm
  | poolFunctions => exact .of_eq poolFunctions_erase.symm
  | cutsceneFunctions => exact alike_cutscenes
  | stateMachineUpdate => exact alike_machines
  | cameraTransition => exact .of_eq fade_erase.symm
  | physicsFunctions => exact alike_physics
  | sceneFunctions => exact alike_scenes
  | entryPoint => exact .of_eq entryPoint_erase.symm
  | _ => exact .refl _

def Options.unmapped (o : Options) : Options :=
  { o with lower := { o.lower with sourceMap := false } }

/-- Without places, the whole file is emitted alike. -/
theorem alike_file (g : Game) (o : Options) :
    (Generator.file { game := g, options := o }).Alike
      (Generator.file { game := g.erase, options := o.unmapped }) := by
  have hprototypes : Generator.prototypes { game := g.erase, options := o.unmapped } =
      Generator.prototypes { game := g, options := o } :=
    congrArg (· ++ _) (prototypes_erase (s := ⟨g, o.lower⟩))
  have hchecks : Check.emit (Generator.scope { game := g.erase, options := o.unmapped }) =
      Check.emit ⟨g, o.lower⟩ := checks_erase (s := ⟨g, o.lower⟩)
  rw [Generator.file, Generator.file, hprototypes, hchecks]
  refine .bind_right fun _ => .bind_right fun _ => .each fun place _ => ?_
  rw [Generator.sectionCode_eq rfl, Generator.sectionCode_eq rfl]
  exact .bind_right fun _ => alike_content place

/-- What two runs answer that differ in places only. -/
inductive SameCode : Except (Halt Failure) Generated → Except (Halt Failure) Generated → Prop
  | stopped (e : LowerError) : SameCode (.error (.error (.lower e))) (.error (.error (.lower e)))
  | refused (d d' : Diagnostics) (h : d.unplaced = d'.unplaced) :
      SameCode (.error (.error (.broken d))) (.error (.error (.broken d')))
  | finished (file file' : Generated) (source : file.source = file'.source)
      (fingerprint : file.fingerprint = file'.fingerprint)
      (warnings : file.warnings.map Diagnostic.unplaced = file'.warnings.map Diagnostic.unplaced) :
      SameCode (.ok file) (.ok file')

theorem sameCode_finish {gen gen' : Generator} (hstrict : gen.options.strict = gen'.options.strict)
    {c c' : Context} (h : c.strip = c'.strip) : SameCode (gen.finish c) (gen'.finish c') := by
  have hpage : c.page = c'.page := (congrArg Context.page h :)
  have hdiagnostics : c.diagnostics.unplaced = c'.diagnostics.unplaced :=
    congrArg Context.diagnostics h
  have herrors : c.diagnostics.hasErrors = c'.diagnostics.hasErrors :=
    (congrArg Diagnostics.hasErrors hdiagnostics :)
  simp only [Generator.finish, hstrict, herrors]
  split
  · exact .refused _ _ hdiagnostics
  · refine .finished _ _ (by rw [hpage]) (by rw [hpage]) ?_
    rw [Diagnostics.unplaced_downgrade, Diagnostics.unplaced_downgrade, hdiagnostics]

/-- Where one run is stopped right behind the last line that can be counted, the other faults as it
records a place there. -/
structure FaultsBehindLast (g : Game) (o : Options) (g' : Game) (o' : Options) : Prop where
  overruns : g.Overruns o.lower
  fits : ¬g'.Overruns o'.lower
  lines : height (Generator.file { game := g, options := o }).items = Page.maxLines.toNat
  faults : generate g o = .error .fault
  stopped : ∃ e, generate g' o' = .error (.error (.lower e))

theorem height_filterMap_strip (items : List Item) : height (items.filterMap Item.strip) = height items := by
  induction items with
  | nil => rfl
  | cons i items ih =>
    rw [List.filterMap_cons]
    cases i <;> simpa [height, Item.strip, Item.height] using ih

theorem sameCode_of_alike {g g' : Game} {o o' : Options}
    (hfile : (Generator.file { game := g, options := o }).Alike (Generator.file { game := g', options := o' }))
    (hstrict : o.strict = o'.strict) (hfits : generate g o ≠ .error .fault)
    (hfits' : generate g' o' ≠ .error .fault) : SameCode (generate g o) (generate g' o') := by
  rw [generate_eq] at hfits hfits'
  rw [generate_eq, generate_eq]
  cases hc : Context.start.renderAll? o.lower.sourceMap (Generator.file { game := g, options := o }).items with
  | none => simp [hc] at hfits
  | some c =>
    cases hc' : Context.start.renderAll? o'.lower.sourceMap
        (Generator.file { game := g', options := o' }).items with
    | none => simp [hc'] at hfits'
    | some c' =>
      rw [← hfile.result]
      cases hr : (Generator.file { game := g, options := o }).result with
      | error e =>
        cases e with
        | error e => exact .stopped e
        | fault => simp [hc, hr] at hfits
      | ok _ =>
        have hstrip := Context.strip_renderAll hc'
        rw [← hfile.items, Context.strip_renderAll hc] at hstrip
        exact sameCode_finish hstrict (Option.some_inj.mp hstrip)

theorem faultsBehindLast {g g' : Game} {o o' : Options}
    (hfile : (Generator.file { game := g, options := o }).Alike (Generator.file { game := g', options := o' }))
    (hfault : generate g o = .error .fault) (hfits : generate g' o' ≠ .error .fault) :
    FaultsBehindLast g o g' o' := by
  have hheight : height (Generator.file { game := g, options := o }).items =
      height (Generator.file { game := g', options := o' }).items := by
    rw [← height_filterMap_strip, hfile.items, height_filterMap_strip]
  have hover := (generate_fault_iff g o).mp hfault
  have hroom := (generate_fault_iff g' o').not.mp hfits
  have hover' := (overruns_iff g o).mp hover
  rw [overruns_iff, not_or, Nat.not_lt] at hroom
  have hlower : height (Generator.file { game := g', options := o' }).items ≤ fileLines g' o'.lower :=
    height_le_linesNeeded _ _
  have hupper : fileLines g o.lower ≤ height (Generator.file { game := g, options := o }).items + 1 :=
    linesNeeded_le _ _
  rw [hfile.result, or_iff_right hroom.1] at hover'
  refine ⟨hover,(generate_fault_iff g' o').not.mp hfits,by omega,hfault,?_⟩
  obtain ⟨c,hc⟩ := Option.isSome_iff_exists.mp ((isSome_renderAll_start_iff g' o').mpr hroom.2)
  rw [generate_eq, hc]
  cases hr : (Generator.file { game := g', options := o' }).result with
  | error e =>
    cases e with
    | error e => exact ⟨e,rfl⟩
    | fault => exact absurd hr hroom.1
  | ok _ =>
    have hends : (Generator.file { game := g, options := { lower := o.lower } }).Ends := hfile.result.trans hr
    have hlines : fileLines g o.lower = height (Generator.file { game := g, options := o }).items :=
      fileLines_eq hends
    omega

/-- Two games that differ in places only, with options that differ in the recording of places only,
give the same code and the same diagnostics but for places, unless something in both of them leaves
its range, or a place does behind the last line. -/
theorem code_is_free_of_places {g g' : Game} {o o' : Options} (hg : g.erase = g'.erase)
    (ho : o.unmapped = o'.unmapped) :
    (g.Overruns o.lower ∧ g'.Overruns o'.lower ∧
        generate g o = .error .fault ∧ generate g' o' = .error .fault) ∨
      (¬g.Overruns o.lower ∧ ¬g'.Overruns o'.lower ∧ SameCode (generate g o) (generate g' o')) ∨
      FaultsBehindLast g o g' o' ∨ FaultsBehindLast g' o' g o := by
  have hfile : (Generator.file { game := g, options := o }).Alike
      (Generator.file { game := g', options := o' }) := by
    refine (alike_file g o).trans ?_
    rw [hg, ho]
    exact (alike_file g' o').symm
  by_cases hfault : generate g o = .error .fault <;> by_cases hfault' : generate g' o' = .error .fault
  · exact .inl ⟨(generate_fault_iff g o).mp hfault,(generate_fault_iff g' o').mp hfault',hfault,hfault'⟩
  · exact .inr (.inr (.inl (faultsBehindLast hfile hfault hfault')))
  · exact .inr (.inr (.inr (faultsBehindLast hfile.symm hfault' hfault)))
  · refine .inr (.inl ⟨(generate_fault_iff g o).not.mp hfault,(generate_fault_iff g' o').not.mp hfault',?_⟩)
    exact sameCode_of_alike hfile (congrArg Options.strict ho :) hfault hfault'

def lost (place : Option Location) : Game :=
  { name := "lost", scenes := [{ name := "field", onEnter := [.changeScene "lake" place] }] }

theorem code_is_free_of_places_lost :
    (lost (some { file := "lost.game", line := 3 })).erase = (lost none).erase ∧
      SameCode (generate (lost (some { file := "lost.game", line := 3 })) { strict := false })
        (generate (lost none) { strict := false, lower := { sourceMap := false } }) := by
  have herase : (lost (some { file := "lost.game", line := 3 })).erase = (lost none).erase := rfl
  have hoptions : ({ strict := false } : Options).unmapped =
      ({ strict := false, lower := { sourceMap := false } } : Options).unmapped := rfl
  have hfits (place : Option Location) (o : Lower.Options)
      (hlines : fileLines (lost place) o ≤ Page.maxLines.toNat) : ¬(lost place).Overruns o := by
    rintro (⟨_,hm,_⟩ | ⟨_,hc,_⟩ | ⟨_,hs,_⟩ | hover)
    · cases hm
    · cases hc
    · cases hs
    · exact Nat.not_lt.mpr hlines hover
  have hlost := hfits (some { file := "lost.game", line := 3 }) {} (by decide +kernel)
  have hnone := hfits none { sourceMap := false } (by decide +kernel)
  rcases code_is_free_of_places herase hoptions with ⟨hover,_⟩ | ⟨_,_,hcode⟩ | h | h
  · exact absurd hover hlost
  · exact ⟨herase,hcode⟩
  · exact absurd h.overruns hlost
  · exact absurd h.overruns hnone

/-- At such a map there is no code to compare. -/
theorem code_with_places_may_fault :
    ¬SameCode (generate emptyMap {}) (generate emptyMap { lower := { sourceMap := false } }) := by
  rw [(generate_fault_iff _ _).mpr (emptyMap_overruns _)]
  exact nofun

end Program

end Cartridge
