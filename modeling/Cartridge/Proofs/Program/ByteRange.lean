import Mathlib.Algebra.Order.BigOperators.Group.List
import Mathlib.Algebra.Order.Group.Nat
import Cartridge.Proofs.Lower.Constant
import Cartridge.Proofs.Physics.ZoneSearch
import Cartridge.Proofs.Program.Comment
import Cartridge.Proofs.Program.Closed

/-!
What bytes of the generated program number and count. The checks limit the instances of entities, and nothing else that
a byte is used for: there may be any number of scenes, of states, of tags and of gravity zones. It is said exactly how
many of them a byte serves.
-/
namespace Cartridge

open Code Code.Emission Lower

namespace Game.Slots

def tagColumn (all : List Instance) : String := column "const uint8_t ent_tag" (all.map fun i => Name.tag i.tag)

theorem holds_tagColumn {s : Scope} (hsome : s.game.instances ≠ []) :
    (data s).Holds (.mark (.line (tagColumn s.game.instances))) := by
  have hmember : tagColumn s.game.instances ∈ table s.game :=
    List.mem_append_right _ (by simp [columns, tagColumn])
  have hcount : s.game.instances.length ≠ 0 := by simpa using hsome
  have htable (first second last : Emission Unit) : (do
      first
      second
      verbatim (table s.game)
      last).Holds (.mark (.line (tagColumn s.game.instances))) :=
    .right (.right (.left (holds_verbatim hmember)))
  have hshown : ¬((s.game.instances.length = 0 && s.game.tags.isEmpty) = true) := by simp [hsome]
  unfold data
  simp only [if_neg hshown, if_neg hcount]
  split
  · exact .right (htable _ _ _)
  · exact htable _ _ _

end Game.Slots

namespace Program

variable {g : Game} {o : Options}

section selectors

/-- Every member of an enumeration is found again by what a byte keeps of its number. -/
def FoundAgain (members : List String) : Prop :=
  ∀ n < members.length, members[(UInt8.ofNat n).toNat]? = members[n]?

theorem foundAgain_iff {members : List String} (h : members.Nodup) : FoundAgain members ↔ members.length ≤ 256 := by
  constructor
  · intro hfound
    by_contra hlong
    have hfirst : members[0]? = members[256]? := hfound 256 (by omega)
    have hsame : 0 = 256 := (List.getElem?_inj (by omega) h).mp hfirst
    cases hsame
  · intro hshort n hn
    rw [UInt8.toNat_ofNat', Nat.mod_eq_of_lt (by omega)]

/-- Bytes that tell the members of an enumeration apart. -/
structure Selector where
  declaration : String
  members : List String

def selectors (g : Game) : List Selector :=
  ⟨"uint8_t current_scene;", g.scenes.map Scene.name⟩ ::
    ((if g.instances = [] then [] else [⟨Game.Slots.tagColumn g.instances, g.tags⟩]) ++
      g.machines.map fun m => ⟨s!"uint8_t {Machine.Emit.variableName m};", m.states.map Machine.State.name⟩)

theorem nodup_selectors (h : g.Closed) : ∀ v ∈ selectors g, v.members.Nodup := by
  rw [selectors, List.forall_mem_cons, List.forall_mem_append, List.forall_mem_map]
  refine ⟨h.sceneNames,?_,h.stateNames⟩
  split
  next => simp
  next => exact List.forall_mem_singleton.mpr (Game.nodup_distinct _)

theorem holds_selectors (hscenes : g.scenes ≠ []) : ∀ v ∈ selectors g,
    (Generator.file { game := g, options := o }).Holds (.mark (.line v.declaration)) := by
  rw [selectors, List.forall_mem_cons, List.forall_mem_append, List.forall_mem_map]
  refine ⟨?_,?_,fun m hm => ?_⟩
  · refine @holds_file_of_content g o .sceneEnum _ ?_
    rw [content, Scene.Emit.numbers, if_neg (by simpa using hscenes)]
    exact .right (.right (.left (holds_verbatim (by simp))))
  · split
    next => simp
    next hsome =>
      rw [List.forall_mem_singleton]
      exact @holds_file_of_content g o .poolData _ (Game.Slots.holds_tagColumn hsome)
  · refine @holds_file_of_content g o .stateMachineEnums _ ?_
    have hdeclared : s!"uint8_t {Machine.Emit.variableName m};" ∈ g.machines.flatMap Machine.Emit.stateNumbers :=
      List.mem_flatMap.mpr ⟨m,hm,by simp [Machine.Emit.stateNumbers]⟩
    rw [content, Machine.Emit.numbers, if_neg (by simpa using List.ne_nil_of_mem hm)]
    exact .right (.right (.left (holds_verbatim hdeclared)))

theorem selectors_ne_empty : ∀ v ∈ selectors g, v.declaration ≠ "" := by
  rw [selectors, List.forall_mem_cons, List.forall_mem_append, List.forall_mem_map]
  refine ⟨by simp,?_,fun m _ => by simp +decide⟩
  split
  next => simp
  next => simp +decide [Game.Slots.tagColumn, Game.Slots.column]

end selectors

section zones

variable {w : Physics.World}

theorem holds_zoneCounter (hw : w ∈ g.physics) (hinstances : g.instances ≠ []) (hzones : w.zones ≠ []) :
    (Generator.file { game := g, options := o }).Holds (.mark (.line "uint8_t z;")) ∧
      (Generator.file { game := g, options := o }).Holds
        (.mark (.line (constant "PHYS_ZONE_COUNT" w.zones.length))) := by
  have hworld : content ⟨g, o.lower⟩ .physicsFunctions = Physics.Emit.world ⟨g, o.lower⟩ w := by
    rw [content, Physics.Emit.emit, Option.mem_def.mp hw]
  have hsome : ¬(g.instances.isEmpty = true) := by simpa using hinstances
  have htables : constant "PHYS_ZONE_COUNT" w.zones.length ∈ Physics.Emit.tables w g.instances := by
    simp [Physics.Emit.tables, Physics.Emit.zoneTable, hzones]
  have hbody : (Physics.Emit.gravityBody w).Holds (.mark (.line "uint8_t z;")) := by
    rw [Physics.Emit.gravityBody, if_neg (by simpa using hzones)]
    exact .left (holds_emit List.mem_cons_self)
  constructor
  · refine @holds_file_of_content g o .physicsFunctions _ ?_
    rw [hworld, Physics.Emit.world, if_neg hsome]
    exact .right (.right (.right (.right (.left (.function hbody)))))
  · refine @holds_file_of_content g o .physicsFunctions _ ?_
    rw [hworld, Physics.Emit.world, if_neg hsome]
    exact .right (.right (.left (holds_verbatim htables)))

end zones

/-- A strict run gives a file only for games with at most 40 instances. The bytes that tell scenes, tags and states
apart are declared in the file, and a member is found again by its number if and only if there are at most 256 of its
kind. Where a byte counts gravity zones, the search for the gravity at a point ends if and only if there are at most
255 zones or one of the first 256 is around the point, and it finds the gravity there. -/
theorem bytes_serve_iff {file : Generated} (hstrict : o.strict = true) (h : generate g o = .ok file) :
    g.instances.length ≤ 40 ∧
    (∀ v ∈ selectors g, StandsIn v.declaration file.source ∧ (FoundAgain v.members ↔ v.members.length ≤ 256)) ∧
    ∀ w ∈ g.physics, g.instances ≠ [] → w.zones ≠ [] →
      StandsIn "uint8_t z;" file.source ∧ StandsIn (constant "PHYS_ZONE_COUNT" w.zones.length) file.source ∧
      ∀ x y gravity, w.Finds x y 0 gravity ↔ gravity = w.gravityAt x y ∧
        (w.zones.length ≤ 255 ∨ ∃ zone ∈ w.zones.take 256, zone.contains x y = true) := by
  have hclosed : g.Closed := closed_of_clean ((exists_file_iff hstrict).mp ⟨file,h⟩).1
  refine ⟨hclosed.instances,fun v hv => ⟨?_,foundAgain_iff (nodup_selectors hclosed v hv)⟩,?_⟩
  · exact standsIn_source h (holds_selectors hclosed.scene v hv) (fun _ => rfl) (selectors_ne_empty v hv)
  · intro w hw hinstances hzones
    obtain ⟨hcounter,hcount⟩ := holds_zoneCounter hw hinstances hzones
    refine ⟨standsIn_source h hcounter (fun _ => rfl) (by decide),?_,fun x y gravity => Physics.World.finds_iff⟩
    exact standsIn_source h hcount (fun _ => rfl) (by simp [constant])

section crowd

variable {first : String} {rest : List String}

/-- A game with as many scenes, states, tags and gravity zones as there are names. It has a single instance, since all
entities but the first are for pools without slots. -/
def crowd (first : String) (rest : List String) : Game where
  name := "crowd"
  entities := (first :: rest).map fun name => ⟨name, name, 8, 8, 0, 0⟩
  pools := rest.map fun name => ⟨name, name, 0⟩
  scenes := (first :: rest).map fun name => { name }
  machines := [⟨"mood", first, (first :: rest).map fun name => { name }, []⟩]
  physics := some { zones := (first :: rest).map fun _ => ⟨0, 0, 0, 0, .zero⟩ }

theorem instances_crowd (h : first ∉ rest) :
    (crowd first rest).instances = [⟨first, first, none, 0, 0, 8, 8⟩] := by
  have hpools : (crowd first rest).pools.flatMap (crowd first rest).poolInstances = [] := by
    refine List.flatMap_eq_nil_iff.mpr fun p hp => ?_
    obtain ⟨name,-,rfl⟩ := List.mem_map.mp hp
    rw [Game.poolInstances]
    split <;> rfl
  have htemplate (name : String) : (crowd first rest).isPoolTemplate name = decide (name ∈ rest) := by
    rw [Bool.eq_iff_iff]
    simp [crowd, Game.isPoolTemplate]
  have hsingle : (first :: rest).filter (fun name => !(crowd first rest).isPoolTemplate name) = [first] := by
    rw [List.filter_cons_of_pos (by simp [htemplate, h]), List.filter_eq_nil_iff.mpr]
    intro name hname
    simp [htemplate, hname]
  have hsingles : (crowd first rest).staticInstances = [⟨first, first, none, 0, 0, 8, 8⟩] := by
    have hentities : (crowd first rest).entities = (first :: rest).map fun name => ⟨name, name, 8, 8, 0, 0⟩ := rfl
    rw [Game.staticInstances, hentities, List.filter_map, Function.comp_def, hsingle]
    rfl
  rw [Game.instances, hsingles, hpools]
  rfl

theorem tags_crowd (h : (first :: rest).Nodup) : (crowd first rest).tags = first :: rest := by
  have htags : (crowd first rest).entities.map Entity.tag = first :: rest := by simp [crowd, Function.comp_def]
  rw [Game.tags, htags, Game.distinct_of_nodup h]

theorem handlers_crowd (first : String) (rest : List String) : (crowd first rest).handlers = [] := by
  simp [crowd, Game.handlers, List.flatMap_map, Scene.handlers, Machine.State.handlers]

theorem closed_crowd (h : (first :: rest).Nodup) : (crowd first rest).Closed where
  scene := by simp [crowd]
  initialScene := by simp [crowd]
  variableNames := by simp [crowd]
  sceneNames := by simpa [crowd, Function.comp_def] using h
  entityNames := by simpa [crowd, Function.comp_def] using h
  poolNames := by simpa [crowd, Function.comp_def] using h.of_cons
  machineNames := by simp [crowd]
  stateNames := by simpa [crowd, Function.comp_def] using h
  cutsceneNames := by simp [crowd]
  mapNames := by simp [crowd]
  pools := by simp +contextual [crowd]
  instances := by simp [instances_crowd (List.nodup_cons.mp h).1]
  bodies := by simp [crowd]
  tags := by simp [crowd]
  states := by simp [crowd]
  arrays := by simp [crowd]
  maps := by simp [crowd]
  cutscenes := by simp [crowd]
  save := by simp [crowd]
  sceneChanges := by simp [handlers_crowd, Stmt.walkAll]

theorem lowered_crowd (o : Lower.Options) (place : Section) : lowered ⟨crowd first rest, o⟩ place = [] := by
  cases place <;> simp [lowered, crowd, shownPairs, Scene.handlers, stateStmts, Machine.State.handlers,
    Machine.Emit.leaving, Machine.Emit.chain, Physics.Emit.livePairs]

theorem length_flatMap_le {α β : Type} {f : α → List β} {n : Nat} (h : ∀ a, (f a).length ≤ n) (xs : List α) :
    (xs.flatMap f).length ≤ xs.length * n := by
  rw [List.length_flatMap]
  refine Nat.le_trans (List.sum_le_card_nsmul _ n ?_) (by simp)
  simpa using fun a _ => h a

theorem height_slots_crowd (h : first ∉ rest) :
    height (Game.Slots.data ⟨crowd first rest, {}⟩).items ≤ 2 * rest.length + 20 := by
  have hpool (p : Pool) : (Game.Slots.rangeConstants (crowd first rest) p).length ≤ 2 := by
    rw [Game.Slots.rangeConstants]
    split <;> simp
  have hranges := length_flatMap_le hpool (crowd first rest).pools
  have hpools : (crowd first rest).pools.length = rest.length := List.length_map _
  have htable : (Game.Slots.table (crowd first rest)).length =
      ((crowd first rest).pools.flatMap (Game.Slots.rangeConstants (crowd first rest))).length + 10 := by
    simp [Game.Slots.table, instances_crowd h, Game.Slots.columns, Game.Slots.slotConstant]
  simp [Game.Slots.data, instances_crowd h, maxSlots, -List.length_flatMap, htable]
  omega

theorem length_livePools_crowd : (Game.Slots.livePools (crowd first rest)).length ≤ rest.length :=
  Nat.le_trans (List.length_filter_le _ _) (by simp [crowd])

theorem height_poolFunctions_crowd :
    height (Game.Slots.functions ⟨crowd first rest, {}⟩).items ≤ 30 * rest.length + 2 := by
  have hlive : (Game.Slots.livePools (crowd first rest)).length ≤ rest.length := length_livePools_crowd
  have hpool : ∀ live ∈ Game.Slots.livePools (crowd first rest),
      height (Game.Slots.poolFunctions live).items ≤ 30 := by
    simp [Game.Slots.poolFunctions]
  have hpools := height_each_le hpool
  rw [Game.Slots.functions]
  split
  next => simp
  next =>
    simp
    omega

theorem height_machine_crowd :
    height (Machine.Emit.functions ⟨crowd first rest, {}⟩).items ≤ 10 * rest.length + 100 := by
  obtain ⟨m,hm⟩ : ∃ m : Machine, m = ⟨"mood", first, (first :: rest).map fun name => { name }, []⟩ := ⟨_,rfl⟩
  have hmachines : (crowd first rest).machines = [m] := by rw [hm]; rfl
  have hstates : m.states = (first :: rest).map fun name => { name } := by rw [hm]
  have hdispatch (occasion : String) (handler : Machine.State → List Stmt) (h : ∀ name, handler { name } = []) :
      (Machine.Emit.dispatch ⟨crowd first rest, {}⟩ m occasion handler).Ends ∧
        height (Machine.Emit.dispatch ⟨crowd first rest, {}⟩ m occasion handler).items = 7 := by
    simp [Machine.Emit.dispatch, hstates, List.filter_map, Function.comp_def, h]
  have harm : ∀ state ∈ m.states, height (Machine.Emit.updateArm ⟨crowd first rest, {}⟩ m state).items ≤ 2 := by
    simp [hm, Machine.Emit.updateArm, Machine.Emit.leaving, Machine.Emit.chain, Lower.block]
  have harmEnds : ∀ state ∈ m.states, (Machine.Emit.updateArm ⟨crowd first rest, {}⟩ m state).Ends := by
    simp [hm, Machine.Emit.updateArm, Machine.Emit.leaving, Machine.Emit.chain, Lower.block]
  have harms := height_each_le harm
  have hcount : m.states.length = rest.length + 1 := by simp [hm]
  obtain ⟨henter,henterHeight⟩ := hdispatch "enter" Machine.State.onEnter fun _ => rfl
  obtain ⟨hexit,hexitHeight⟩ := hdispatch "exit" Machine.State.onExit fun _ => rfl
  have hmachine : height (Machine.Emit.machine ⟨crowd first rest, {}⟩ m).items ≤ 2 * rest.length + 50 := by
    rw [Machine.Emit.machine]
    refine Nat.le_trans (height_bind_le _ _) ?_
    simp [henter, hexit, henterHeight, hexitHeight, ends_each.mpr harmEnds]
    omega
  simp only [Machine.Emit.functions, hmachines, each_singleton]
  simp
  omega

theorem height_physics_crowd (h : first ∉ rest) :
    height (Physics.Emit.emit ⟨crowd first rest, {}⟩).items ≤ 200 := by
  have hw : (crowd first rest).physics = some { zones := (first :: rest).map fun _ => ⟨0, 0, 0, 0, .zero⟩ } := rfl
  simp only [Physics.Emit.emit, hw, Physics.Emit.world]
  refine Nat.le_trans (height_bind_le _ _) ?_
  simp [instances_crowd h, Physics.Emit.tables, Physics.Emit.bodyTable, Physics.Emit.zoneTable,
    Physics.Emit.gravityBody, Physics.Emit.integrateBody, Physics.Emit.clampLines, Physics.Emit.bounceBody,
    Physics.Emit.separateBody, Physics.Emit.separateOn, Physics.Emit.collideBody, Physics.Emit.livePairs]

theorem height_scenes_crowd : height (Scene.Emit.functions ⟨crowd first rest, {}⟩).items ≤ 100 := by
  have hdispatch (hook : Scene.Emit.Hook) : (Scene.Emit.dispatch ⟨crowd first rest, {}⟩ hook).Ends ∧
      height (Scene.Emit.dispatch ⟨crowd first rest, {}⟩ hook).items = 7 := by
    have hnone : (crowd first rest).scenes.filter (fun scene => !(hook.body scene).isEmpty) = [] := by
      cases hook <;> simp [crowd, Scene.Emit.Hook.body]
    simp [Scene.Emit.dispatch, hnone]
  have hhandlers : ∀ scene ∈ (crowd first rest).scenes,
      Scene.Emit.handlerFunctions ⟨crowd first rest, {}⟩ scene = Pure.pure () := by
    intro scene hscene
    obtain ⟨name,-,rfl⟩ := List.mem_map.mp hscene
    rfl
  have hends : (each (Scene.Emit.handlerFunctions ⟨crowd first rest, {}⟩) (crowd first rest).scenes).Ends :=
    ends_each.mpr fun scene hscene => by simp [hhandlers scene hscene]
  have hheight : height
      (each (Scene.Emit.handlerFunctions ⟨crowd first rest, {}⟩) (crowd first rest).scenes).items ≤ _ * 0 :=
    height_each_le fun scene hscene => by simp [hhandlers scene hscene]
  rw [Scene.Emit.functions]
  split
  next => simp
  next =>
    simp [hends, hdispatch, Scene.Emit.Hook.all, each_cons]
    omega

theorem height_content_crowd (h : first ∉ rest) (hrest : rest.length ≤ 1000) (place : Section) :
    height (content ⟨crowd first rest, {}⟩ place).items ≤ 1000000 := by
  cases place with
  | collisionHelpers => simp [content, Physics.Emit.overlapHelper, crowd]
  | poolData => exact Nat.le_trans (height_slots_crowd h) (by omega)
  | poolFunctions => exact Nat.le_trans height_poolFunctions_crowd (by omega)
  | stateMachineEnums =>
    refine Nat.le_trans (height_bind_le _ _) ?_
    simp [crowd, each_singleton, Machine.Emit.stateNumbers]
  | stateMachineUpdate => exact Nat.le_trans height_machine_crowd (by omega)
  | physicsFunctions => exact Nat.le_trans (height_physics_crowd h) (by omega)
  | sceneEnum => simp [content, Scene.Emit.numbers, crowd]
  | sceneFunctions => exact Nat.le_trans height_scenes_crowd (by omega)
  | entryPoint =>
    have hsetUp : (Scene.Emit.setUp (crowd first rest)).length ≤ 10 := by
      simp only [Scene.Emit.setUp]
      split <;> simp [crowd]
    have hframe : (Scene.Emit.perFrame (crowd first rest)).length ≤ 10 := by
      simp only [Scene.Emit.perFrame]
      split_ifs <;> simp [crowd]
    simp [content, Scene.Emit.entryPoint]
    omega
  | _ => simp [content, Cutscene.Emit.emit, Cutscene.Fade.emit, Cutscene.Fade.isUsed, Nav.Emit.emit,
      Save.Emit.emit, Game.Globals.emit, crowd]

theorem length_prototypesOf_crowd (hrest : rest.length ≤ 1000) (place : Section) :
    (prototypesOf ⟨crowd first rest, {}⟩ place).length ≤ 2000 := by
  cases place with
  | poolFunctions =>
    have hlive : (Game.Slots.livePools (crowd first rest)).length ≤ rest.length := length_livePools_crowd
    exact Nat.le_trans (length_flatMap_le (n := 2) (by simp) _) (by simp only; omega)
  | sceneFunctions =>
    have hhooks (name : String) : Scene.Emit.hooks { name } = [] := rfl
    simp [prototypesOf, Scene.Emit.prototypes, crowd, hhooks, Scene.Emit.Hook.all, List.flatMap_map]
  | _ => simp [prototypesOf, Physics.Emit.overlapPrototypes, Save.Emit.prototypes, Cutscene.Emit.prototypes,
      Machine.Emit.prototypes, Cutscene.Fade.prototypes, Cutscene.Fade.isUsed, Nav.Emit.prototypes,
      Physics.Emit.prototypes, crowd]

/-- As long as there are not too many names for the lines of the file to be counted, all checks are passed. -/
theorem crowd_passes (h : (first :: rest).Nodup) (hrest : rest.length ≤ 1000) :
    ∃ file, generate (crowd first rest) {} = .ok file := by
  have hclean : (Generator.file { game := crowd first rest, options := {} }).Clean := by
    refine clean_iff_closed.mpr ⟨closed_crowd h,fun place => ?_⟩
    simp [lowered_crowd]
  have hchecks : (Check.emit ⟨crowd first rest, {}⟩).Clean := (clean_file_iff.mp hclean).1
  have hprototypes : (prototypes ⟨crowd first rest, {}⟩).length ≤ Section.order.length * 2000 :=
    length_flatMap_le (length_prototypesOf_crowd hrest) _
  refine (exists_file_iff rfl).mpr ⟨hclean,fileLines_le_maxLines ?_ ?_ fun place _ => ?_⟩
  · exact Nat.le_trans (height_preamble _ _) (Nat.le_trans (Nat.add_le_add_right hprototypes 15) (by decide))
  · rw [height_checks_of_clean hchecks]
    exact Nat.zero_le _
  · exact height_content_crowd (List.nodup_cons.mp h).1 hrest place

theorem members_of_mem_selectors_crowd (h : (first :: rest).Nodup) {v : Selector}
    (hv : v ∈ selectors (crowd first rest)) : v.members = first :: rest := by
  have hsome : (crowd first rest).instances ≠ [] := by simp [instances_crowd (List.nodup_cons.mp h).1]
  rw [selectors, if_neg hsome, tags_crowd h] at hv
  simp only [crowd, List.map_map, Function.comp_def, List.map_id', List.map_singleton, List.singleton_append,
    List.mem_cons, List.not_mem_nil, or_false] at hv
  rcases hv with rfl | rfl | rfl <;> rfl

/-- A zone without extent is around no point. -/
theorem contains_empty_zone (x y : Int16) : Physics.Zone.contains ⟨0, 0, 0, 0, .zero⟩ x y = false := by
  simp [Physics.Zone.contains]

end crowd

theorem bytes_serve_three : ∃ file, generate (crowd "0" ["1", "2"]) {} = .ok file ∧
    (∀ v ∈ selectors (crowd "0" ["1", "2"]), StandsIn v.declaration file.source ∧ FoundAgain v.members) ∧
    ∀ w ∈ (crowd "0" ["1", "2"]).physics, ∀ x y, w.Finds x y 0 (w.gravityAt x y) := by
  have hnames : ["0", "1", "2"].Nodup := by decide
  obtain ⟨file,h⟩ := crowd_passes hnames (by decide)
  obtain ⟨-,hselectors,hzones⟩ := bytes_serve_iff rfl h
  refine ⟨file,h,fun v hv => ?_,?_⟩
  · obtain ⟨hstands,hfound⟩ := hselectors v hv
    exact ⟨hstands,hfound.mpr (by simp [members_of_mem_selectors_crowd hnames hv])⟩
  · rintro w ⟨⟩ x y
    have hinstances : (crowd "0" ["1", "2"]).instances ≠ [] := by simp [instances_crowd]
    obtain ⟨-,-,hfinds⟩ := hzones _ rfl hinstances (by simp)
    exact (hfinds x y _).mpr ⟨rfl,.inl (by simp)⟩

def largeCrowd : Game := crowd "0" ((List.range 256).map fun n => toString (n + 1))

/-- The checks are passed, no byte tells the members of an enumeration apart, and no search for gravity ends. -/
theorem large_crowd_exceeds_bytes : ∃ file, generate largeCrowd {} = .ok file ∧
    largeCrowd.scenes.length = 257 ∧ largeCrowd.tags.length = 257 ∧
    largeCrowd.machines.map (fun m => m.states.length) = [257] ∧
    largeCrowd.physics.map (fun w => w.zones.length) = some 257 ∧
    (∀ v ∈ selectors largeCrowd, ¬FoundAgain v.members) ∧
    ∀ w ∈ largeCrowd.physics, ∀ x y gravity, ¬w.Finds x y 0 gravity := by
  have hnumbers : (List.range 257).map toString = "0" :: (List.range 256).map fun n => toString (n + 1) := by
    rw [List.range_succ_eq_map, List.map_cons, List.map_map]
    rfl
  have hnames : ("0" :: (List.range 256).map fun n => toString (n + 1)).Nodup :=
    hnumbers ▸ List.nodup_range.map fun _ _ => toString_nat_inj
  obtain ⟨file,h⟩ := crowd_passes hnames (by simp)
  refine ⟨file,h,?_,?_,?_,?_,fun v hv => ?_,?_⟩
  · simp [largeCrowd, crowd]
  · rw [largeCrowd, tags_crowd hnames]
    simp
  · simp [largeCrowd, crowd]
  · simp [largeCrowd, crowd]
  · rw [members_of_mem_selectors_crowd hnames hv, foundAgain_iff hnames]
    simp
  · rintro w ⟨⟩ x y gravity hfinds
    obtain ⟨-,hshort | ⟨zone,hzone,hin⟩⟩ := Physics.World.finds_iff.mp hfinds
    · simp at hshort
    · obtain ⟨name,-,rfl⟩ := List.mem_map.mp (List.mem_of_mem_take hzone)
      rw [contains_empty_zone] at hin
      cases hin

end Program

end Cartridge
