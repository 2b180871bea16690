import Cartridge.Proofs.Game.Tag
import Cartridge.Proofs.Game.Valid
import Cartridge.Proofs.Nav.Change
import Cartridge.Proofs.Program.Clean

/-!
What a strict run guarantees: it gives a file exactly for games in which every name that is used is declared, no name is
declared twice, everything is within its limits, and all statements can be lowered.
-/
namespace Cartridge

namespace Game

def handlers (g : Game) : List Stmt :=
  g.scenes.flatMap Scene.handlers
    ++ g.machines.flatMap (fun m => m.states.flatMap Machine.State.handlers)
    ++ g.cutscenes.flatMap fun c => Cutscene.Step.stmtsOf c.steps

/-- Every name that is used is declared, no name is declared twice, and everything is within its
limits. -/
structure Closed (g : Game) : Prop where
  scene : g.scenes ≠ []
  initialScene : ∀ name ∈ g.initialScene, name ∈ g.scenes.map Scene.name
  variableNames : (g.scalars.map Variable.name ++ g.arrays.map ArrayDecl.name).Nodup
  sceneNames : (g.scenes.map Scene.name).Nodup
  entityNames : (g.entities.map Entity.name).Nodup
  poolNames : (g.pools.map Pool.name).Nodup
  machineNames : (g.machines.map Machine.name).Nodup
  stateNames : ∀ m ∈ g.machines, (m.states.map Machine.State.name).Nodup
  cutsceneNames : (g.cutscenes.map Cutscene.name).Nodup
  mapNames : (g.maps.map Nav.Map.name).Nodup
  pools : ∀ p ∈ g.pools, p.entity ∈ g.entities.map Entity.name
  instances : g.instances.length ≤ 40
  bodies : ∀ w ∈ g.physics, ∀ b ∈ w.bodies,
    b.entity ∈ g.entities.map Entity.name ∧ (∃ i ∈ g.instances, i.entity = b.entity) ∧ 1 ≤ b.mass ∧
      0 ≤ b.maxVx.raw ∧ 0 ≤ b.maxVy.raw
  tags : ∀ w ∈ g.physics, ∀ p ∈ w.pairs,
    p.tagA ∈ g.entities.map Entity.tag ∧ p.tagB ∈ g.entities.map Entity.tag
  states : ∀ m ∈ g.machines, m.initial ∈ m.states.map Machine.State.name ∧
    ∀ t ∈ m.transitions, t.source ∈ m.states.map Machine.State.name ∧
      t.target ∈ m.states.map Machine.State.name
  arrays : ∀ a ∈ g.arrays, 1 ≤ a.length ∧ a.init.length ≤ a.length.toNat
  maps : ∀ m ∈ g.maps, m.grid.IsSized ∧ ∃ t, m.grid.isWalkable t = true
  cutscenes : ∀ c ∈ g.cutscenes, c.duration ≤ 65535
  save : ∀ s ∈ g.save, s.validate = .ok ()
  sceneChanges : ∀ scene loc, .changeScene scene loc ∈ Stmt.walkAll g.handlers →
    scene ∈ g.scenes.map Scene.name

end Game

namespace Program

open Code Code.Emission Lower

variable {g : Game} {o : Options} {s : Scope}

namespace Check

/-- Names of which none is found again are different from each other and from those seen before. -/
theorem nodup_of_repeatedAfter {seen names : List String} (hseen : seen.Nodup)
    (h : repeatedAfter seen names = []) : names.Nodup ∧ ∀ name ∈ names, name ∉ seen := by
  induction names generalizing seen with
  | nil => simp
  | cons name names ih =>
    rw [repeatedAfter] at h
    split at h
    next => cases h
    next hcount =>
      have hnew : name ∉ seen := by
        intro hmem
        exact hcount (List.count_eq_one_of_mem hseen hmem)
      obtain ⟨hnames,hother⟩ := ih (List.nodup_cons.mpr ⟨hnew,hseen⟩) h
      refine ⟨List.nodup_cons.mpr ⟨fun hmem => hother name hmem (by simp),hnames⟩,?_⟩
      rintro n (_ | ⟨_,hn⟩)
      · exact hnew
      · exact fun hmem => hother n hn (List.mem_cons_of_mem _ hmem)

theorem repeatedAfter_eq_nil {seen names : List String} (hnames : names.Nodup) (h : ∀ name ∈ names, name ∉ seen) :
    repeatedAfter seen names = [] := by
  induction names generalizing seen with
  | nil => rfl
  | cons name names ih =>
    obtain ⟨hnew,hrest⟩ := List.nodup_cons.mp hnames
    obtain ⟨hname,hothers⟩ := List.forall_mem_cons.mp h
    rw [repeatedAfter, if_neg (by simp [List.count_eq_zero_of_not_mem hname])]
    refine ih hrest fun n hn hseen => ?_
    rcases List.mem_cons.mp hseen with rfl | hseen
    · exact hnew hn
    · exact hothers n hn hseen

theorem clean_distinct_iff {kind : String} {names : List String} : (distinct kind names).Clean ↔ names.Nodup := by
  rw [distinct, clean_each]
  constructor
  · intro h
    have hnone : repeated names = [] :=
      List.eq_nil_iff_forall_not_mem.mpr fun name hmem => not_clean_problem _ _ _ (h name hmem)
    exact (nodup_of_repeatedAfter List.nodup_nil hnone).1
  · intro h
    have hnone : repeated names = [] := repeatedAfter_eq_nil h (by simp)
    simp [hnone]

theorem clean_scenes_iff :
    (scenes g).Clean ↔ g.scenes ≠ [] ∧ ∀ name ∈ g.initialScene, name ∈ g.scenes.map Scene.name := by
  cases hi : g.initialScene with
  | none => simp [scenes, report, hi]
  | some name =>
    have hdeclared : g.scene? name = none ↔ ∀ scene ∈ g.scenes, scene.name ≠ name := by simp [Game.scene?]
    simp +contextual [scenes, report, hi, hdeclared]

theorem clean_names_iff : (names g).Clean ↔
    (g.scalars.map Variable.name ++ g.arrays.map ArrayDecl.name).Nodup ∧ (g.scenes.map Scene.name).Nodup ∧
      (g.entities.map Entity.name).Nodup ∧ (g.pools.map Pool.name).Nodup ∧ (g.machines.map Machine.name).Nodup ∧
      (∀ m ∈ g.machines, (m.states.map Machine.State.name).Nodup) ∧ (g.cutscenes.map Cutscene.name).Nodup ∧
      (g.maps.map Nav.Map.name).Nodup := by
  simp only [names, clean_bind, clean_each, clean_distinct_iff]
  exact and_iff_right (by simp)

theorem entity?_ne_none_iff {entity : String} :
    g.entity? entity ≠ none ↔ entity ∈ g.entities.map Entity.name := by
  simp [Game.entity?]

theorem clean_entities_iff :
    (entities g).Clean ↔ (∀ p ∈ g.pools, p.entity ∈ g.entities.map Entity.name) ∧ g.instances.length ≤ 40 := by
  simp only [← entity?_ne_none_iff]
  simp [entities, pool, report, maxInstances]

theorem instancesOf_ne_nil_iff {entity : String} :
    g.instancesOf entity ≠ [] ↔ ∃ i ∈ g.instances, i.entity = entity := by
  constructor
  · intro h
    obtain ⟨slot,hslot⟩ := List.exists_mem_of_ne_nil _ h
    obtain ⟨⟨i,n⟩,hi,-⟩ := List.mem_map.mp hslot
    obtain ⟨hmem,hentity⟩ := List.mem_filter.mp hi
    exact ⟨i,List.fst_mem_of_mem_zipIdx hmem,by simpa using hentity⟩
  · rintro ⟨i,hi,hentity⟩
    obtain ⟨n,hn⟩ := List.mem_iff_getElem?.mp hi
    have hslot : (i,n) ∈ g.instances.zipIdx := List.mk_mem_zipIdx_iff_getElem?.mpr hn
    exact List.ne_nil_of_mem (List.mem_map.mpr ⟨(i,n),List.mem_filter.mpr ⟨hslot,by simp [hentity]⟩,rfl⟩)

theorem clean_physics_iff : (physics g).Clean ↔ ∀ w ∈ g.physics,
    (∀ b ∈ w.bodies, b.entity ∈ g.entities.map Entity.name ∧ ∃ i ∈ g.instances, i.entity = b.entity) ∧
      ∀ p ∈ w.pairs, p.tagA ∈ g.entities.map Entity.tag ∧ p.tagB ∈ g.entities.map Entity.tag := by
  simp only [← entity?_ne_none_iff, ← instancesOf_ne_nil_iff, ← Game.hasTag_iff]
  cases hw : g.physics with
  | none => simp [physics, hw]
  | some w =>
    simp only [physics, hw, clean_bind, clean_each, Option.mem_some_iff, forall_eq']
    rw [and_iff_right (by simp)]
    refine and_congr (forall₂_congr fun b hb => ?_) (forall₂_congr fun p hp => ?_)
    · simp +contextual [body, report]
    · simp [pair, pairTag, report]

theorem clean_cutscenes_iff : (cutscenes g).Clean ↔ ∀ c ∈ g.cutscenes, c.duration ≤ 65535 := by
  simp only [cutscenes, clean_bind, clean_each]
  rw [and_iff_right (by simp)]
  refine forall₂_congr fun c hc => ?_
  have hlimit (h : c.duration ≤ 65535) : c.duration < Cutscene.Emit.frameLimit := Nat.lt_of_le_of_lt h (by decide)
  simpa [cutscene, report, maxFrames] using hlimit

/-- The walkable tiles of a grid can be counted if it holds a bit for each tile. -/
theorem clean_navigation_iff (h : ∀ m ∈ g.maps, m.grid.IsSized) :
    (navigation g).Clean ↔ ∀ m ∈ g.maps, ∃ t, m.grid.isWalkable t = true := by
  simp only [navigation, clean_bind, clean_each]
  rw [and_iff_right (by simp)]
  refine forall₂_congr fun m hm => ?_
  have hcount : (map m).Clean ↔ m.grid.walkableCount ≠ 0 := by simp [map, (h m hm).walkableCount?_eq, report]
  rw [hcount]
  constructor
  · exact (h m hm).exists_walkable
  · rintro ⟨t,ht⟩
    exact Nav.Grid.walkableCount_ne_zero ht

end Check

/-- The settings of a closed game are valid. -/
theorem settingsValid_of_closed (h : s.game.Closed) (place : Section) : SettingsValid s place := by
  have hmachines : ∀ m ∈ s.game.machines, m.validate = .ok () := fun m hm =>
    Machine.validate_eq (h.states m hm).1 (h.states m hm).2
  cases place with
  | saveData => exact h.save
  | poolData => exact Nat.le_trans h.instances (by decide)
  | globals => exact fun a ha => ArrayDecl.validate_eq (h.arrays a ha).1 (h.arrays a ha).2
  | stateMachineEnums | stateMachineUpdate => exact hmachines
  | cutsceneFunctions => exact fun c hc => Nat.lt_of_le_of_lt (h.cutscenes c hc) (by decide)
  | navigation => exact fun m hm => (h.maps m hm).1.validate_eq
  | physicsFunctions =>
    intro w hw
    refine forM_of_ok fun b hb => ?_
    obtain ⟨-,-,hmass,hx,hy⟩ := h.bodies w hw b hb
    exact Physics.BodyDef.validate_eq hmass hx hy
  | _ => trivial

/-- Every handler of a game stands in some section. -/
theorem exists_lowered {a : Stmt} (ha : a ∈ s.game.handlers) : ∃ place, a ∈ lowered s place := by
  rw [Game.handlers, List.mem_append, List.mem_append] at ha
  rcases ha with (ha | ha) | ha
  · exact ⟨.sceneFunctions,ha⟩
  · obtain ⟨m,hm,ha⟩ := List.mem_flatMap.mp ha
    obtain ⟨state,hstate,ha⟩ := List.mem_flatMap.mp ha
    have hstmts : a ∈ stateStmts m state := List.mem_append_left _ ha
    exact ⟨.stateMachineUpdate,List.mem_flatMap.mpr ⟨m,hm,List.mem_flatMap.mpr ⟨state,hstate,hstmts⟩⟩⟩
  · exact ⟨.cutsceneFunctions,ha⟩

/-- Every scene that a handler changes to is declared. -/
theorem sceneChanges_of_clean (h : ∀ place, ∀ a ∈ lowered s place, (stmt s a).Clean) {scene : String}
    {loc : Option Location} (hmem : .changeScene scene loc ∈ Stmt.walkAll s.game.handlers) :
    scene ∈ s.game.scenes.map Scene.name := by
  obtain ⟨a,ha,hwalk⟩ := Stmt.mem_walkAll.mp hmem
  obtain ⟨place,hplace⟩ := exists_lowered ha
  have hdeclared : (s.game.sceneIndex? scene).isSome := settled_of_clean (h place a hplace) scene loc hwalk
  rw [Game.sceneIndex?, List.findIdx?_isSome] at hdeclared
  simpa using hdeclared

/-- A file is emitted without a problem if and only if the game is closed and all statements can be lowered. -/
theorem clean_iff_closed : (Generator.file { game := g, options := o }).Clean ↔
    g.Closed ∧ ∀ place, ∀ a ∈ lowered ⟨g, o.lower⟩ place, (stmt ⟨g, o.lower⟩ a).Clean := by
  have hcontent : (∀ place, (content ⟨g, o.lower⟩ place).Clean) ↔ (∀ place, SettingsValid ⟨g, o.lower⟩ place) ∧
      ∀ place, ∀ a ∈ lowered ⟨g, o.lower⟩ place, (stmt ⟨g, o.lower⟩ a).Clean := by
    simp only [clean_content_iff, forall_and]
  rw [clean_file_iff, hcontent]
  simp only [Check.emit, clean_bind, Check.clean_scenes_iff, Check.clean_names_iff,
    Check.clean_entities_iff, Check.clean_physics_iff, Check.clean_cutscenes_iff]
  constructor
  · rintro ⟨⟨hscenes,hnames,hentities,hphysics,hmaps,hcutscenes⟩,hsettings,hstmts⟩
    obtain ⟨hvariable,hscene,hentity,hpool,hmachine,hstate,hcutscene,hmap⟩ := hnames
    have hsized : ∀ m ∈ g.maps, m.grid.IsSized := fun m hm => Nav.Grid.isSized_of_validate (hsettings .navigation m hm)
    refine ⟨?_,hstmts⟩
    exact
      { scene := hscenes.1
        initialScene := hscenes.2
        variableNames := hvariable
        sceneNames := hscene
        entityNames := hentity
        poolNames := hpool
        machineNames := hmachine
        stateNames := hstate
        cutsceneNames := hcutscene
        mapNames := hmap
        pools := hentities.1
        instances := hentities.2
        bodies := fun w hw b hb => by
          obtain ⟨hdeclared,hinstance⟩ := (hphysics w hw).1 b hb
          have hworld := hsettings .physicsFunctions w hw
          exact ⟨hdeclared,hinstance,Physics.BodyDef.of_validate (forM_eq_ok hworld b hb)⟩
        tags := fun w hw => (hphysics w hw).2
        states := fun m hm => Machine.of_validate (hsettings .stateMachineEnums m hm)
        arrays := fun a ha => ArrayDecl.of_validate (hsettings .globals a ha)
        maps := fun m hm => ⟨hsized m hm,(Check.clean_navigation_iff hsized).mp hmaps m hm⟩
        cutscenes := hcutscenes
        save := hsettings .saveData
        sceneChanges := fun scene loc hmem => sceneChanges_of_clean hstmts hmem }
  · rintro ⟨h,hstmts⟩
    have hmaps := (Check.clean_navigation_iff fun m hm => (h.maps m hm).1).mpr fun m hm => (h.maps m hm).2
    have hbodies (w : Physics.World) (hw : w ∈ g.physics) (b : Physics.BodyDef) (hb : b ∈ w.bodies) :
        b.entity ∈ g.entities.map Entity.name ∧ ∃ i ∈ g.instances, i.entity = b.entity :=
      ⟨(h.bodies w hw b hb).1,(h.bodies w hw b hb).2.1⟩
    refine ⟨⟨⟨h.scene,h.initialScene⟩,?_,⟨h.pools,h.instances⟩,fun w hw => ⟨hbodies w hw,h.tags w hw⟩,hmaps,
      h.cutscenes⟩,settingsValid_of_closed h,hstmts⟩
    exact ⟨h.variableNames,h.sceneNames,h.entityNames,h.poolNames,h.machineNames,h.stateNames,h.cutsceneNames,
      h.mapNames⟩

/-- A game whose file is emitted without a problem is closed. -/
theorem closed_of_clean (h : (Generator.file { game := g, options := o }).Clean) : g.Closed :=
  (clean_iff_closed.mp h).1

/-- A strict run that gives a file had a closed game. -/
theorem strict_success_is_closed {g : Game} {o : Options} {file : Generated}
    (hstrict : o.strict = true) (h : generate g o = .ok file) : g.Closed :=
  closed_of_clean ((exists_file_iff hstrict).mp ⟨file,h⟩).1

def courtyard : Game where
  name := "courtyard"
  scalars := [⟨"hp", .u8, 3⟩]
  arrays := [⟨"loot", .u8, 4, [1]⟩]
  entities := [⟨"hero", "player", 8, 8, 0, 0⟩, ⟨"arrow", "shot", 2, 2, 0, 0⟩]
  pools := [⟨"arrows", "arrow", 3⟩]
  scenes := [
    { name := "yard"
      onFrame :=
        [.cond (.var "hp") [] (some [.loop (.int 0) [.changeScene "hall" none] none]) none] },
    { name := "hall", onEnter := [.assignIndex "loot" (.int 2) .set (.int 7) none] }]
  initialScene := some "hall"
  machines := [⟨"gate", "shut",
    [{ name := "shut", onExit := [.changeScene "yard" none] }, { name := "open" }],
    [⟨"shut", "open", .var "hp"⟩]⟩]
  physics := some {
    bodies := [⟨"hero", 1, none, .one, .zero⟩]
    pairs := [⟨"player", "shot", true, [.raw "hit();" none]⟩] }
  maps := [⟨"ground", ⟨2, 2, [8], none⟩, {}⟩]
  save := some ⟨[⟨"hp", .u8, 1, 1, none, 3⟩], 1, .crc8, none, 1⟩
  cutscenes := [⟨"intro",
    [.wait 3, .parallel [[.run [.changeScene "hall" none], .wait 9], [.wait 5]]]⟩]

theorem clean_courtyard (place : Section) : (content ⟨courtyard, {}⟩ place).Clean := by
  by_cases hsave : place = .saveData
  · rw [hsave, clean_save_iff]
    rintro _ ⟨⟩
    cbv
  · have hall : ∀ place ∈ Section.order, place ≠ .saveData →
        (content ⟨courtyard, {}⟩ place).result = .ok () ∧
          ∀ i ∈ (content ⟨courtyard, {}⟩ place).items, i.isProblem = false := by
      decide +kernel
    obtain ⟨hend,hitems⟩ := hall place (by cases place <;> decide) hsave
    exact ⟨⟨(),hend⟩,hitems⟩

theorem clean_courtyard_file : (Generator.file { game := courtyard, options := {} }).Clean := by
  have hcheck : (Check.emit ⟨courtyard, {}⟩).Clean := ⟨⟨(),by decide +kernel⟩,by decide +kernel⟩
  exact clean_file_iff.mpr ⟨hcheck,clean_courtyard⟩

theorem fileLines_courtyard : fileLines courtyard {} ≤ Page.maxLines.toNat := by
  have hsave : height (content ⟨courtyard, {}⟩ .saveData).items ≤ 1000000 := by
    refine Nat.le_trans (height_bind_le _ _) ?_
    rw [height_ofHalt]
    decide +kernel
  have hcontent : ∀ place ∈ Section.order, place ≠ .saveData →
      height (content ⟨courtyard, {}⟩ place).items ≤ 1000000 := by decide +kernel
  refine fileLines_le_maxLines (by decide +kernel) (by decide +kernel) fun place hmem => ?_
  by_cases hplace : place = .saveData
  · exact hplace ▸ hsave
  · exact hcontent place hmem hplace

theorem exists_courtyard_file : ∃ file, generate courtyard {} = .ok file :=
  (exists_file_iff rfl).mpr ⟨clean_courtyard_file,fileLines_courtyard⟩

theorem courtyard_is_closed : (∃ file, generate courtyard {} = .ok file) ∧ courtyard.Closed := by
  obtain ⟨file,h⟩ := exists_courtyard_file
  exact ⟨⟨file,h⟩,strict_success_is_closed rfl h⟩

end Program

end Cartridge
