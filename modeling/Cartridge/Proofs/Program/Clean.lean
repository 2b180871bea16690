import Cartridge.Proofs.Program.Line
import Cartridge.Proofs.Program.Strict

/-!
When a file is emitted without a problem, which is when a strict run gives it. Each section asks for valid settings, and
for statements that can be lowered.
-/
namespace Cartridge

namespace Code

/-- Diagnostics count the problems among the items. -/
theorem Context.totalErrors_renderAll {mapped : Bool} {c d : Context} {items : List Item}
    (h : c.renderAll? mapped items = some d) :
    d.diagnostics.totalErrors = c.diagnostics.totalErrors + items.countP Item.isProblem := by
  induction items generalizing c with
  | nil => cases h; rfl
  | cons i items ih =>
    obtain ⟨e,he,hd⟩ := foldlM_cons_eq_some.mp h
    have hstep : e.diagnostics.totalErrors =
        c.diagnostics.totalErrors + if i.isProblem then 1 else 0 := by
      obtain ⟨-,-,he⟩ := render?_eq_some he
      rw [he]
      cases i <;> rfl
    rw [ih hd, hstep, List.countP_cons, Nat.add_assoc, Nat.add_comm (items.countP _)]

namespace Emission

@[simp] theorem clean_ofConfig {r : Except Error Unit} : (ofConfig r).Clean ↔ r = .ok () := by
  cases r <;> simp [ofConfig, ofExcept, Clean, Halt.ofExcept, Except.mapError]

@[simp] theorem clean_ofHalt {r : Except (Halt Error) Unit} : (ofHalt r).Clean ↔ r = .ok () := by
  rcases r with (e | _) | _ <;> simp [ofHalt, Clean]

@[simp] theorem clean_ofOption_bind {α β : Type} {r : Option α} {f : α → Emission β} :
    (ofOption r >>= f).Clean ↔ ∃ a, r = some a ∧ (f a).Clean := by
  cases r with
  | none =>
    rw [bind_error (m := ofOption none) rfl]
    simp [Clean]
  | some a =>
    rw [bind_ok (m := ofOption (some a)) rfl]
    simp [Clean, ofOption]

end Emission

end Code

namespace Program

open Code Code.Emission Lower

/-- A strict run gives a file if and only if it is emitted without a problem and its lines can be
counted. -/
theorem exists_file_iff {g : Game} {o : Options} (hstrict : o.strict = true) :
    (∃ file, generate g o = .ok file) ↔
      (Generator.file { game := g, options := o }).Clean ∧ fileLines g o.lower ≤ Page.maxLines.toNat := by
  rw [← isSome_renderAll_start_iff g o, Option.isSome_iff_exists]
  simp only [generate_eq_ok_iff]
  have hclean : (Generator.file { game := g, options := o }).Clean ↔
      (Generator.file { game := g, options := o }).Ends ∧
        (Generator.file { game := g, options := o }).items.countP Item.isProblem = 0 := by
    simp only [Clean, Ends, List.countP_eq_zero, Bool.not_eq_true]
    exact and_congr_left' Unique.exists_iff
  have hfinish {c : Context} (hc : Context.start.renderAll? o.lower.sourceMap
      (Generator.file { game := g, options := o }).items = some c) :
      (∃ file, Generator.finish { game := g, options := o } c = .ok file) ↔
        (Generator.file { game := g, options := o }).items.countP Item.isProblem = 0 := by
    have htotal := Context.totalErrors_renderAll hc
    rw [show Context.start.diagnostics.totalErrors = 0 from rfl, Nat.zero_add] at htotal
    rw [← htotal]
    simp only [Generator.finish, hstrict, Bool.and_true, Diagnostics.hasErrors]
    cases c.diagnostics.totalErrors <;> simp
  rw [hclean]
  constructor
  · rintro ⟨file,c,hc,hends,hfile⟩
    exact ⟨⟨hends,(hfinish hc).mp ⟨file,hfile⟩⟩,c,hc⟩
  · rintro ⟨⟨hends,hcount⟩,c,hc⟩
    obtain ⟨file,hfile⟩ := (hfinish hc).mpr hcount
    exact ⟨file,c,hc,hends,hfile⟩

/-- A file is emitted without a problem if and only if the checks and all sections are. -/
theorem clean_file_iff {g : Game} {o : Options} :
    (Generator.file { game := g, options := o }).Clean ↔
      (Check.emit ⟨g, o.lower⟩).Clean ∧ ∀ place, (content ⟨g, o.lower⟩ place).Clean := by
  have hpreamble (prototypes : List String) : (Preamble.emit ⟨g, o.lower⟩ prototypes).Clean := by
    simp [Preamble.emit, Preamble.boundsCheck]
  have hsection (place : Section) :
      (Generator.sectionCode { game := g, options := o } place).Clean ↔
        (content ⟨g, o.lower⟩ place).Clean := by
    rw [Generator.sectionCode_eq rfl, clean_bind]
    exact and_iff_right (by simp)
  have horder (place : Section) : place ∈ Section.order := by cases place <;> decide
  simp only [Generator.file, clean_bind, clean_each, hsection]
  exact ⟨fun h => ⟨h.2.1,fun place => h.2.2 place (horder place)⟩,
    fun h => ⟨hpreamble _,h.1,fun place _ => h.2 place⟩⟩

section contents

variable {s : Scope}

/-- What is looked at in a section besides its statements. -/
def SettingsValid (s : Scope) : Section → Prop
  | .saveData => ∀ schema ∈ s.game.save, schema.validate = .ok ()
  | .poolData => s.game.instances.length ≤ maxSlots
  | .globals => ∀ a ∈ s.game.arrays, a.validate = .ok ()
  | .stateMachineEnums | .stateMachineUpdate => ∀ m ∈ s.game.machines, m.validate = .ok ()
  | .cutsceneFunctions => ∀ c ∈ s.game.cutscenes, c.duration < Cutscene.Emit.frameLimit
  | .navigation => ∀ m ∈ s.game.maps, m.grid.validate = .ok ()
  | .physicsFunctions => ∀ w ∈ s.game.physics, w.validate = .ok ()
  | _ => True

theorem clean_block_iff {stmts : List Stmt} : (block s stmts).Clean ↔ ∀ a ∈ stmts, (stmt s a).Clean := by
  rw [block_eq_each, clean_each]

/-- Of the save data only the schema can be at fault. -/
theorem clean_save_iff :
    (content s .saveData).Clean ↔ ∀ schema ∈ s.game.save, schema.validate = .ok () := by
  rw [content, Save.Emit.emit]
  cases s.game.save with
  | none => simp
  | some schema =>
    have hchecksum : (Save.Emit.checksumFunction schema.checksum).Clean := by
      cases schema.checksum <;> simp [Save.Emit.checksumFunction, Save.Emit.crcBody]
    have haccessors (f : Save.Field) : (Save.Emit.accessors s f).Clean := by
      simp [Save.Emit.accessors]
    simp [Save.Emit.schema, hchecksum, haccessors, Save.Emit.loadBody]

theorem clean_slots_iff : (Game.Slots.data s).Clean ↔ s.game.instances.length ≤ maxSlots := by
  simp [Game.Slots.data]

theorem clean_globals_iff : (Game.Globals.emit s).Clean ↔ ∀ a ∈ s.game.arrays, a.validate = .ok () := by
  rw [Game.Globals.emit]
  split
  next hnone =>
    simp at hnone
    simp [hnone]
  next => simp [Game.Globals.array]

theorem clean_stateNumbers_iff : (Machine.Emit.numbers s).Clean ↔ ∀ m ∈ s.game.machines, m.validate = .ok () := by
  rw [Machine.Emit.numbers]
  split
  next hnone => simp [List.isEmpty_iff.mp hnone]
  next => simp

theorem clean_dispatch_iff {m : Machine} {occasion : String} {handler : Machine.State → List Stmt} :
    (Machine.Emit.dispatch s m occasion handler).Clean ↔
      ∀ state ∈ m.states, ∀ a ∈ handler state, (stmt s a).Clean := by
  simp only [Machine.Emit.dispatch, clean_function, clean_choice, clean_each, clean_arm, clean_block_iff]
  exact forall_filter_isEmpty

theorem clean_machine_iff {m : Machine} : (Machine.Emit.machine s m).Clean ↔
    m.validate = .ok () ∧ ∀ state ∈ m.states, ∀ a ∈ stateStmts m state, (stmt s a).Clean := by
  simp only [Machine.Emit.machine, Machine.Emit.updateArm, clean_bind, clean_ofConfig, clean_dispatch_iff,
    clean_function, clean_verbatim, clean_choice, clean_each, clean_arm, clean_block_iff, stateStmts,
    Machine.State.handlers, List.mem_append, or_imp, forall_and, true_and]
  tauto

theorem clean_machines_iff : (Machine.Emit.functions s).Clean ↔
    (∀ m ∈ s.game.machines, m.validate = .ok ()) ∧ ∀ a ∈ lowered s .stateMachineUpdate, (stmt s a).Clean := by
  simp only [lowered, List.forall_mem_flatMap, ← forall₂_and, ← clean_machine_iff]
  rw [Machine.Emit.functions]
  split
  next hnone => simp [List.isEmpty_iff.mp hnone]
  next => simp

theorem clean_cutscene_iff {c : Cutscene} : (Cutscene.Emit.cutscene s c).Clean ↔
    c.duration < Cutscene.Emit.frameLimit ∧ ∀ a ∈ Cutscene.Step.stmtsOf c.steps, (stmt s a).Clean := by
  have haction (action : Cutscene.Action) :
      (Cutscene.Emit.action s action).Clean ↔ ∀ a ∈ action.stmts, (stmt s a).Clean := by
    cases action with
    | run stmts => exact clean_block_iff
    | transition => simp [Cutscene.Emit.action, Cutscene.Action.stmts]
  have hswitch : (Cutscene.Emit.frameSwitch s c).Clean ↔
      ∀ a ∈ Cutscene.Step.stmtsOf c.steps, (stmt s a).Clean := by
    rw [← forall_groups, Cutscene.Emit.frameSwitch]
    split
    next hnone => simp [hnone]
    next => simp only [clean_choice, Cutscene.Emit.frameArm, clean_each, clean_arm, haction]
  by_cases hlimit : c.duration < Cutscene.Emit.frameLimit
  · simp [Cutscene.Emit.cutscene, Cutscene.Emit.stepBody, hlimit, hswitch]
  · simp [Cutscene.Emit.cutscene, hlimit]

theorem clean_cutscenes_iff : (Cutscene.Emit.emit s).Clean ↔
    (∀ c ∈ s.game.cutscenes, c.duration < Cutscene.Emit.frameLimit) ∧
      ∀ a ∈ lowered s .cutsceneFunctions, (stmt s a).Clean := by
  simp only [lowered, List.forall_mem_flatMap, ← forall₂_and, ← clean_cutscene_iff]
  rw [Cutscene.Emit.emit]
  split
  next hnone => simp [List.isEmpty_iff.mp hnone]
  next => simp

theorem clean_navigation_iff : (Nav.Emit.emit s).Clean ↔ ∀ m ∈ s.game.maps, m.grid.validate = .ok () := by
  rw [Nav.Emit.emit]
  split
  next hnone => simp [List.isEmpty_iff.mp hnone]
  next => simp [Nav.Emit.helpers, Nav.Emit.pushBody, Nav.Emit.popBody, Nav.Emit.searchBody, Nav.Emit.neighbourBody,
    Nav.Emit.map]

theorem clean_physics_iff : (Physics.Emit.emit s).Clean ↔
    (∀ w ∈ s.game.physics, w.validate = .ok ()) ∧ ∀ a ∈ lowered s .physicsFunctions, (stmt s a).Clean := by
  have hloops (p : Physics.Pair) : (Physics.Emit.pairLoops s p).Clean ↔ ∀ a ∈ p.onHit, (stmt s a).Clean := by
    simp [Physics.Emit.pairLoops, clean_block_iff]
  have hcollide (w : Physics.World) : (Physics.Emit.collideBody s w).Clean ↔
      ∀ p ∈ Physics.Emit.livePairs s.game w, ∀ a ∈ p.onHit, (stmt s a).Clean := by
    rw [Physics.Emit.collideBody]
    split
    next hnone => simp [hnone]
    next => simp [hloops]
  rw [Physics.Emit.emit]
  cases hw : s.game.physics with
  | none => simp [lowered, shownPairs, hw]
  | some w =>
    by_cases hnone : s.game.instances.isEmpty
    · simp [Physics.Emit.world, lowered, shownPairs, hw, hnone]
    · simp only [lowered, shownPairs, hw, hnone, List.forall_mem_flatMap, Option.mem_some_iff, forall_eq',
        Bool.false_eq_true, if_false, ← hcollide]
      simp [Physics.Emit.world, hnone, Physics.Emit.gravityBody, Physics.Emit.integrateBody,
        Physics.Emit.separateBody, Physics.Emit.separateOn]

theorem clean_scenes_iff :
    (Scene.Emit.functions s).Clean ↔ ∀ a ∈ lowered s .sceneFunctions, (stmt s a).Clean := by
  simp only [lowered, List.forall_mem_flatMap]
  rw [Scene.Emit.functions]
  split
  next hnone => simp [List.isEmpty_iff.mp hnone]
  next =>
    simp only [clean_bind, clean_each, clean_function, clean_verbatim, Scene.Emit.handlerFunctions, clean_block_iff,
      forall_hooks]
    simp [Scene.Emit.dispatch]

/-- A section is emitted without a problem if and only if its settings are valid and its statements can be lowered. -/
theorem clean_content_iff {place : Section} :
    (content s place).Clean ↔ SettingsValid s place ∧ ∀ a ∈ lowered s place, (stmt s a).Clean := by
  cases place with
  | saveData => exact clean_save_iff.trans (by simp [SettingsValid, lowered])
  | poolData => exact clean_slots_iff.trans (by simp [SettingsValid, lowered])
  | globals => exact clean_globals_iff.trans (by simp [SettingsValid, lowered])
  | stateMachineEnums => exact clean_stateNumbers_iff.trans (by simp [SettingsValid, lowered])
  | stateMachineUpdate => exact clean_machines_iff
  | cutsceneFunctions => exact clean_cutscenes_iff
  | navigation => exact clean_navigation_iff.trans (by simp [SettingsValid, lowered])
  | physicsFunctions => exact clean_physics_iff
  | sceneFunctions => exact clean_scenes_iff.trans (by simp [SettingsValid])
  | collisionHelpers => simp [content, Physics.Emit.overlapHelper, SettingsValid, lowered]
  | sceneEnum => simp [content, Scene.Emit.numbers, SettingsValid, lowered]
  | poolFunctions => simp [content, Game.Slots.functions, Game.Slots.poolFunctions, SettingsValid, lowered]
  | cameraTransition =>
    simp [content, Cutscene.Fade.emit, Cutscene.Fade.stepBody, SettingsValid, lowered]
  | entryPoint => simp [content, Scene.Emit.entryPoint, SettingsValid, lowered]
  | _ => simp [content, SettingsValid, lowered]

end contents

end Program

end Cartridge
