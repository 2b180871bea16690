import Cartridge.Proofs.Code.Name
import Cartridge.Proofs.Game.Instance
import Cartridge.Proofs.Program.Definition

/-!
The names of functions. A name is made of the C name of an owner, with a word in front for most kinds of owners, and
of a last word; save data has accessors, and some names are fixed. It is said exactly when the names of all functions
of a game differ.
-/
namespace Cartridge.Program

open Code Code.Emission Lower Code.Name

variable {g : Game}

section functions

open Scene.Emit (hooks)

def owned {α : Type} (stem : α → String) (words : List String) (owners : List α) : List (String × String) :=
  owners.flatMap fun x => words.map fun word => (stem x, word)

def poolWords : List String := ["spawn", "despawn"]

def cutsceneWords : List String := ["start", "step"]

def machineWords : List String := ["enter", "exit", "transition", "init", "update"]

def poolParts (pools : List Pool) : List (String × String) := owned (fun p => ident p.name) poolWords pools

def cutsceneParts (g : Game) : List (String × String) :=
  owned (fun c => "cutscene_" ++ ident c.name) cutsceneWords g.cutscenes

def machineParts (g : Game) : List (String × String) := owned (fun m => ident m.name) machineWords g.machines

def mapParts (g : Game) : List (String × String) := owned (fun m => "nav_" ++ ident m.name) ["find"] g.maps

def handlerParts (g : Game) : List (String × String) :=
  g.scenes.flatMap fun scene => (hooks scene).map fun h => ("scene_" ++ ident scene.name, h.name)

def overlapParts (g : Game) : List (String × String) := if g.physics.isSome then [("aabb", "overlap")] else []

def slotParts (g : Game) : List (String × String) :=
  g.save.toList.flatMap fun layout => (if layout.checksum = .none then [] else [("save", "checksum")]) ++
    [("save", "reset"), ("save", "validate"), ("save", "commit"), ("save", "load")]

def fadeParts (g : Game) : List (String × String) :=
  if Cutscene.Fade.isUsed g then [("transition", "start"), ("transition", "step")] else []

def searchParts (g : Game) : List (String × String) :=
  if g.maps.isEmpty then [] else
    [("astar_heap", "before"), ("astar", "push"), ("astar", "pop"), ("astar", "h"), ("astar", "walk"),
      ("astar", "search")]

def physicsParts (g : Game) : List (String × String) :=
  if g.physics.isSome then
    (if g.instances.isEmpty then [] else [("phys_gravity", "at"), ("physics", "integrate"), ("phys", "bounce"),
      ("physics", "separate"), ("physics", "collide")]) ++ [("physics", "step")]
  else []

def sceneParts (g : Game) : List (String × String) :=
  if g.scenes.isEmpty then [] else
    [("change", "scene"), ("scene", "enter"), ("scene", "frame"), ("scene", "exit"), ("scene_apply", "pending")]

def fixedParts (g : Game) : List (String × String) :=
  overlapParts g ++ (slotParts g ++ (fadeParts g ++ (searchParts g ++ (physicsParts g ++ sceneParts g))))

def accessorFronts : List String := ["save_get_", "save_set_"]

def accessorNames (g : Game) : List String :=
  g.save.toList.flatMap fun layout =>
    layout.fields.flatMap fun f => accessorFronts.map fun front => front ++ ident f.name

def parts (g : Game) : List (String × String) :=
  fixedParts g ++ (poolParts (Game.Slots.livePools g) ++ (cutsceneParts g ++ (mapParts g ++
    (machineParts g ++ handlerParts g))))

private theorem names_pools (pools : List Pool) :
    (pools.flatMap fun p => [Game.Slots.spawn p, Game.Slots.despawn p]).map Header.name =
      (poolParts pools).map compound := by
  simp [poolParts, owned, poolWords, List.map_flatMap, compound, Game.Slots.spawn, Game.Slots.despawn,
    String.append_assoc]

private theorem names_cutscenes (g : Game) :
    (g.cutscenes.flatMap fun c => [Cutscene.Emit.start c, Cutscene.Emit.step c]).map Header.name =
      (cutsceneParts g).map compound := by
  simp [cutsceneParts, owned, cutsceneWords, List.map_flatMap, compound, Cutscene.Emit.start, Cutscene.Emit.step,
    Cutscene.Emit.base, Header.procedure, cutsceneStep, String.append_assoc]

private theorem names_machines (g : Game) :
    (g.machines.flatMap Machine.Emit.definitions).map Header.name = (machineParts g).map compound := by
  simp [machineParts, owned, machineWords, List.map_flatMap, compound, Machine.Emit.definitions, Machine.Emit.start,
    Machine.Emit.update, Machine.Emit.change, Machine.Emit.dispatcher, Header.procedure, String.append_assoc, toString]

private theorem names_maps (g : Game) : (g.maps.map Nav.Emit.find).map Header.name = (mapParts g).map compound := by
  simp [mapParts, owned, List.map_eq_flatMap, List.flatMap_assoc, compound, Nav.Emit.find, String.append_assoc,
    toString]

private theorem names_handlers (g : Game) :
    (g.scenes.flatMap fun scene => (hooks scene).map fun h => h.handler scene).map Header.name =
      (handlerParts g).map compound := by
  simp [handlerParts, List.map_flatMap, compound, Scene.Emit.Hook.handler, Header.procedure, String.append_assoc,
    toString, Function.comp_def]

private theorem names_accessors (fields : List Save.Field) :
    (fields.flatMap fun f => [Save.Emit.getter f, Save.Emit.setter f]).map Header.name =
      fields.flatMap fun f => accessorFronts.map fun front => front ++ ident f.name := by
  simp [List.map_flatMap, accessorFronts, Save.Emit.getter, Save.Emit.setter]

private theorem names_save (g : Game) : ((g.save.toList.flatMap Save.Emit.definitions).map Header.name).Perm
    (accessorNames g ++ (slotParts g).map compound) := by
  rw [accessorNames, slotParts]
  cases g.save with
  | none => exact .nil
  | some layout =>
    have hchecksum : (Save.Emit.checksumDefinitions layout.checksum).map Header.name =
        (if layout.checksum = .none then [] else [("save", "checksum")]).map compound := by
      unfold Save.Emit.checksumDefinitions
      split <;> rfl
    simp only [Option.toList_some, List.flatMap_singleton, Save.Emit.definitions, List.map_append, hchecksum,
      names_accessors]
    exact List.perm_append_comm_assoc _ _ _

private theorem names_overlap (g : Game) :
    (Physics.Emit.helperDefinitions g).map Header.name = (overlapParts g).map compound := by
  unfold Physics.Emit.helperDefinitions overlapParts
  split <;> rfl

private theorem names_fades (g : Game) : (Cutscene.Fade.definitions g).map Header.name = (fadeParts g).map compound := by
  unfold Cutscene.Fade.definitions fadeParts
  split <;> rfl

private theorem names_nav (g : Game) :
    (Nav.Emit.definitions g).map Header.name = (searchParts g ++ mapParts g).map compound := by
  rw [List.map_append, ← names_maps]
  unfold Nav.Emit.definitions searchParts
  split
  next hnone => simp [List.isEmpty_iff.mp hnone]
  next => rfl

private theorem names_physics (g : Game) :
    (Physics.Emit.definitions g).map Header.name = (physicsParts g).map compound := by
  unfold Physics.Emit.definitions physicsParts
  split
  next => split <;> rfl
  next => rfl

private theorem names_scenes (g : Game) :
    (Scene.Emit.definitions g).map Header.name = (handlerParts g ++ sceneParts g).map compound := by
  rw [List.map_append, ← names_handlers]
  unfold Scene.Emit.definitions sceneParts
  split
  next hnone => simp [List.isEmpty_iff.mp hnone]
  next =>
    rw [List.map_append]
    rfl

/-- The functions of a game are its accessors, those whose names have an owner or are fixed, and the main function. -/
theorem names_perm (g : Game) :
    ((definitions g).map Header.name).Perm (accessorNames g ++ ((parts g).map compound ++ ["main"])) := by
  have hsections : definitions g = Physics.Emit.helperDefinitions g ++
      (g.save.toList.flatMap Save.Emit.definitions ++
        (((Game.Slots.livePools g).flatMap fun p => [Game.Slots.spawn p, Game.Slots.despawn p]) ++
          ((g.cutscenes.flatMap fun c => [Cutscene.Emit.start c, Cutscene.Emit.step c]) ++
            (g.machines.flatMap Machine.Emit.definitions ++ (Cutscene.Fade.definitions g ++ (Nav.Emit.definitions g ++
              (Physics.Emit.definitions g ++ (Scene.Emit.definitions g ++ [Scene.Emit.main])))))))) := by
    simp [definitions, Section.order, definitionsOf]
  rw [hsections, List.perm_iff_count]
  intro name
  have hsave := (names_save g).count_eq name
  simp only [List.count_append] at hsave
  simp only [List.map_append, List.count_append, names_overlap, hsave, names_pools, names_cutscenes, names_machines,
    names_fades, names_nav, names_physics, names_scenes, parts, fixedParts, List.map_singleton]
  have hmain : Scene.Emit.main.name = "main" := rfl
  rw [hmain]
  omega

end functions

section words

variable {α : Type} {xs ys : List (String × String)} {ws vs : List String}

def WordsIn (words : List String) (parts : List (String × String)) : Prop := ∀ p ∈ parts, p.2 ∈ words

theorem WordsIn.append (hx : WordsIn ws xs) (hy : WordsIn vs ys) : WordsIn (ws ++ vs) (xs ++ ys) := by
  intro p hp
  exact List.mem_append.mpr ((List.mem_append.mp hp).imp (hx p) (hy p))

/-- Names with different last words differ. -/
theorem WordsIn.ne (hx : WordsIn ws xs) (hy : WordsIn vs ys) (h : ∀ w ∈ ws, w ∉ vs) :
    ∀ p ∈ xs, ∀ q ∈ ys, p ≠ q := by
  rintro p hp _ hq rfl
  exact h p.2 (hx p hp) (hy p hq)

theorem mem_owned {stem : α → String} {owners : List α} {p : String × String} :
    p ∈ owned stem ws owners ↔ ∃ x ∈ owners, ∃ word ∈ ws, (stem x, word) = p := by
  simp [owned]

theorem wordsIn_owned {stem : α → String} {owners : List α} : WordsIn ws (owned stem ws owners) := by
  intro p hp
  obtain ⟨x,-,word,hword,rfl⟩ := mem_owned.mp hp
  exact hword

theorem mem_hooks {scene : Scene} {h : Scene.Emit.Hook} : h ∈ Scene.Emit.hooks scene ↔ h.body scene ≠ [] := by
  rw [Scene.Emit.hooks, List.mem_filter]
  cases h <;> simp [Scene.Emit.Hook.all]

theorem mem_handlerParts {p : String × String} : p ∈ handlerParts g ↔
    ∃ scene ∈ g.scenes, ∃ h : Scene.Emit.Hook, h.body scene ≠ [] ∧ ("scene_" ++ ident scene.name, h.name) = p := by
  simp [handlerParts, mem_hooks]

theorem wordsIn_handlerParts : WordsIn ["enter", "frame", "exit"] (handlerParts g) := by
  intro p hp
  obtain ⟨scene,-,h,-,rfl⟩ := mem_handlerParts.mp hp
  cases h <;> simp [Scene.Emit.Hook.name]

/-- A front that names share does not tell them apart. -/
theorem nodup_map_front_iff {front : String} {name : α → String} {owners : List α} :
    (owners.map fun x => front ++ name x).Nodup ↔ (owners.map name).Nodup := by
  have hfront : (owners.map fun x => front ++ name x) = (owners.map name).map (front ++ ·) := by simp
  rw [hfront, List.nodup_map_iff fun a b => (String.append_right_inj front).mp]

/-- Names that tell an owner and a word differ if and only if the owners do. -/
theorem nodup_flatMap_map_iff {β γ : Type} {name : α → String → β} {stem : α → γ} {owners : List α}
    (hws : ws.Nodup) (hne : ws ≠ [])
    (hname : ∀ x y, ∀ v ∈ ws, ∀ w ∈ ws, name x v = name y w ↔ stem x = stem y ∧ v = w) :
    (owners.flatMap fun x => ws.map (name x)).Nodup ↔ (owners.map stem).Nodup := by
  have howner (x : α) : (ws.map (name x)).Nodup :=
    hws.map_on fun v hv w hw h => ((hname x x v hv w hw).mp h).2
  have hpair (x y : α) : (Function.onFun List.Disjoint fun x => ws.map (name x)) x y ↔ stem x ≠ stem y := by
    obtain ⟨w,hw⟩ := List.exists_mem_of_ne_nil ws hne
    constructor
    · intro hdisjoint heq
      have hsame : name x w = name y w := (hname x y w hw w hw).mpr ⟨heq,rfl⟩
      exact hdisjoint (List.mem_map_of_mem hw) (hsame ▸ List.mem_map_of_mem hw)
    · intro hstem p hx hy
      obtain ⟨v,hv,rfl⟩ := List.mem_map.mp hx
      obtain ⟨u,hu,huv⟩ := List.mem_map.mp hy
      exact hstem ((hname y x u hu v hv).mp huv).1.symm
  rw [List.nodup_flatMap, and_iff_right fun x _ => howner x, List.Pairwise.iff hpair, List.Nodup, List.pairwise_map]

/-- Functions of the same words differ if and only if their owners do. -/
theorem nodup_owned_iff {stem : α → String} {owners : List α} (hws : ws.Nodup) (hne : ws ≠ []) :
    (owned stem ws owners).Nodup ↔ (owners.map stem).Nodup :=
  nodup_flatMap_map_iff hws hne fun _ _ _ _ _ _ => Prod.ext_iff

/-- Handlers differ if and only if, for each occasion, the scenes that have one do. -/
theorem nodup_handlerParts_iff (g : Game) : (handlerParts g).Nodup ↔ ∀ h : Scene.Emit.Hook,
    ((g.scenes.filter fun scene => h.body scene ≠ []).map fun scene => ident scene.name).Nodup := by
  have hname {h k : Scene.Emit.Hook} (hk : h.name = k.name) : h = k := by
    revert hk
    cases h <;> cases k <;> decide
  have hscene (scene : Scene) :
      ((Scene.Emit.hooks scene).map fun h => ("scene_" ++ ident scene.name, h.name)).Nodup := by
    have hhooks : (Scene.Emit.hooks scene).Nodup := List.Nodup.filter _ (by decide)
    exact hhooks.map fun h k hk => hname (Prod.ext_iff.mp hk).2
  have hpair (x y : Scene) : (Function.onFun List.Disjoint fun scene =>
      (Scene.Emit.hooks scene).map fun h => ("scene_" ++ ident scene.name, h.name)) x y ↔
        ∀ h : Scene.Emit.Hook, h.body x ≠ [] → h.body y ≠ [] → ident x.name ≠ ident y.name := by
    constructor
    · intro hdisjoint h hx hy heq
      exact hdisjoint (List.mem_map_of_mem (mem_hooks.mpr hx)) (heq ▸ List.mem_map_of_mem (mem_hooks.mpr hy))
    · intro hne p hx hy
      obtain ⟨h,hh,rfl⟩ := List.mem_map.mp hx
      obtain ⟨k,hk,heq⟩ := List.mem_map.mp hy
      obtain ⟨hstem,hword⟩ := Prod.ext_iff.mp heq
      obtain rfl := hname hword
      exact hne k (mem_hooks.mp hh) (mem_hooks.mp hk) ((String.append_right_inj "scene_").mp hstem.symm)
  rw [handlerParts, List.nodup_flatMap, and_iff_right fun x _ => hscene x, List.Pairwise.iff hpair]
  simp only [List.Nodup, List.pairwise_map, List.pairwise_filter, decide_eq_true_eq]
  simp only [List.pairwise_iff_getElem]
  exact ⟨fun h hook i j hi hj hij => h i j hi hj hij hook,fun h i j hi hj hij hook => h hook i j hi hj hij⟩

end words

section fixed

def allFixedParts : List (String × String) :=
  [("aabb", "overlap"), ("save", "checksum"), ("save", "reset"), ("save", "validate"), ("save", "commit"),
    ("save", "load"), ("transition", "start"), ("transition", "step"), ("astar_heap", "before"), ("astar", "push"),
    ("astar", "pop"), ("astar", "h"), ("astar", "walk"), ("astar", "search"), ("phys_gravity", "at"),
    ("physics", "integrate"), ("phys", "bounce"), ("physics", "separate"), ("physics", "collide"),
    ("physics", "step"), ("change", "scene"), ("scene", "enter"), ("scene", "frame"), ("scene", "exit"),
    ("scene_apply", "pending")]

theorem fixedParts_sublist (g : Game) : (fixedParts g).Sublist allFixedParts := by
  have hite {c : Prop} [Decidable c] {xs : List (String × String)} : (if c then xs else []).Sublist xs := by
    split
    · exact .refl _
    · exact List.nil_sublist _
  have hunless {c : Prop} [Decidable c] {xs : List (String × String)} : (if c then [] else xs).Sublist xs := by
    split
    · exact List.nil_sublist _
    · exact .refl _
  have hslots : (slotParts g).Sublist ([("save", "checksum")] ++
      [("save", "reset"), ("save", "validate"), ("save", "commit"), ("save", "load")]) := by
    rw [slotParts]
    cases g.save with
    | none => exact List.nil_sublist _
    | some layout =>
      rw [Option.toList_some, List.flatMap_singleton]
      exact hunless.append (.refl _)
  have hphysics : (physicsParts g).Sublist ([("phys_gravity", "at"), ("physics", "integrate"), ("phys", "bounce"),
      ("physics", "separate"), ("physics", "collide")] ++ [("physics", "step")]) := by
    rw [physicsParts]
    exact hite.trans (hunless.append (.refl _))
  exact hite.append (hslots.append (hite.append (hunless.append (hphysics.append hunless))))

theorem mem_allFixedParts {p : String × String} (hp : p ∈ fixedParts g) : p ∈ allFixedParts :=
  (fixedParts_sublist g).subset hp

theorem nodup_fixedParts (g : Game) : (fixedParts g).Nodup :=
  (fixedParts_sublist g).nodup (by decide)

theorem wordsIn_fixedParts : WordsIn (allFixedParts.map Prod.snd) (fixedParts g) :=
  fun _ hp => List.mem_map_of_mem (mem_allFixedParts hp)

theorem fixedParts_ne_cutsceneParts : ∀ p ∈ fixedParts g, ∀ q ∈ cutsceneParts g, p ≠ q := by
  have hfront : ∀ p ∈ allFixedParts, ¬"cutscene_".toList <+: p.1.toList := by decide +kernel
  rintro p hp _ hq rfl
  obtain ⟨c,-,word,-,rfl⟩ := mem_owned.mp hq
  exact hfront _ (mem_allFixedParts hp) (by simp [String.toList_append])

theorem fixedParts_ne_handlerParts : ∀ p ∈ fixedParts g, ∀ q ∈ handlerParts g, p ≠ q := by
  have hstem : ∀ p ∈ allFixedParts, p.2 ∈ ["enter", "frame", "exit"] → p.1 = "scene" := by decide
  rintro p hp _ hq rfl
  have hscene := congrArg String.toList (hstem p (mem_allFixedParts hp) (wordsIn_handlerParts p hq))
  obtain ⟨scene,-,h,-,rfl⟩ := mem_handlerParts.mp hq
  simp at hscene

/-- A state machine shares a fixed function only if its name is that of the functions that call handlers of scenes. -/
theorem fixedParts_ne_machineParts_iff (hscenes : g.scenes ≠ []) :
    (∀ p ∈ fixedParts g, ∀ q ∈ machineParts g, p ≠ q) ↔ ∀ m ∈ g.machines, ident m.name ≠ "scene" := by
  have hstem : ∀ p ∈ allFixedParts, p.2 ∈ machineWords → p.1 = "scene" := by decide
  constructor
  · intro h m hm hname
    have hfixed : ("scene", "enter") ∈ fixedParts g := by simp [fixedParts, sceneParts, hscenes]
    exact h _ hfixed _ (mem_owned.mpr ⟨m,hm,"enter",by decide,rfl⟩) (Prod.ext hname.symm rfl)
  · rintro h p hp _ hq rfl
    have hscene := hstem p (mem_allFixedParts hp) (wordsIn_owned p hq)
    obtain ⟨m,hm,word,-,rfl⟩ := mem_owned.mp hq
    exact h m hm hscene

/-- A state machine shares a handler of a scene only if it has the name of the scene with a word in front. -/
theorem machineParts_ne_handlerParts_iff :
    (∀ p ∈ machineParts g, ∀ q ∈ handlerParts g, p ≠ q) ↔ ∀ m ∈ g.machines, ∀ scene ∈ g.scenes,
      scene.onEnter ≠ [] ∨ scene.onExit ≠ [] → ident m.name ≠ "scene_" ++ ident scene.name := by
  constructor
  · intro h m hm scene hscene hbody hname
    obtain ⟨hook,hhook,hword⟩ : ∃ hook : Scene.Emit.Hook, hook.body scene ≠ [] ∧ hook.name ∈ machineWords := by
      rcases hbody with henter | hexit
      · exact ⟨.enter,henter,by decide⟩
      · exact ⟨.exit,hexit,by decide⟩
    exact h _ (mem_owned.mpr ⟨m,hm,_,hword,rfl⟩) _ (mem_handlerParts.mpr ⟨scene,hscene,hook,hhook,rfl⟩)
      (Prod.ext hname rfl)
  · rintro h p hp _ hq rfl
    have hword := wordsIn_owned p hp
    obtain ⟨m,hm,word,-,rfl⟩ := mem_owned.mp hp
    obtain ⟨scene,hscene,hook,hbody,heq⟩ := mem_handlerParts.mp hq
    obtain ⟨hstem,hname⟩ := Prod.ext_iff.mp heq
    refine h m hm scene hscene ?_ hstem.symm
    cases hook with
    | enter => exact .inl hbody
    | exit => exact .inr hbody
    | frame =>
      have hframe : Scene.Emit.Hook.frame.name ∉ machineWords := by decide
      rw [← hname] at hword
      exact absurd hword hframe

end fixed

section distinct

/-- What keeps the functions of a game apart: owners of one kind have different C names, no state machine is named
like scenes or a scene with a handler for the same occasions, and no pool or state machine like an accessor. -/
structure FunctionsApart (g : Game) : Prop where
  pools : (g.pools.map fun p => ident p.name).Nodup
  cutscenes : (g.cutscenes.map fun c => ident c.name).Nodup
  maps : (g.maps.map fun m => ident m.name).Nodup
  machines : (g.machines.map fun m => ident m.name).Nodup
  handlers (h : Scene.Emit.Hook) :
    ((g.scenes.filter fun scene => h.body scene ≠ []).map fun scene => ident scene.name).Nodup
  fields : ∀ layout ∈ g.save, (layout.fields.map fun f => ident f.name).Nodup
  dispatchers : ∀ m ∈ g.machines, ident m.name ≠ "scene"
  scenes : ∀ m ∈ g.machines, ∀ scene ∈ g.scenes, scene.onEnter ≠ [] ∨ scene.onExit ≠ [] →
    ident m.name ≠ "scene_" ++ ident scene.name
  accessors : ∀ name ∈ accessorNames g, ∀ p ∈ poolParts g.pools ++ machineParts g, name ≠ compound p

theorem nodup_parts_iff (hlive : Game.Slots.livePools g = g.pools) (hscenes : g.scenes ≠ []) : (parts g).Nodup ↔
    (g.pools.map fun p => ident p.name).Nodup ∧ (g.cutscenes.map fun c => ident c.name).Nodup ∧
      (g.maps.map fun m => ident m.name).Nodup ∧ (g.machines.map fun m => ident m.name).Nodup ∧
      (handlerParts g).Nodup ∧ (∀ p ∈ machineParts g, ∀ q ∈ handlerParts g, p ≠ q) ∧
      ∀ m ∈ g.machines, ident m.name ≠ "scene" := by
  have hfixed := wordsIn_fixedParts (g := g)
  have hpools : WordsIn poolWords (poolParts g.pools) := wordsIn_owned
  have hcutscenes : WordsIn cutsceneWords (cutsceneParts g) := wordsIn_owned
  have hmaps : WordsIn ["find"] (mapParts g) := wordsIn_owned
  have hmachines : WordsIn machineWords (machineParts g) := wordsIn_owned
  have hrest := hmachines.append (wordsIn_handlerParts (g := g))
  have hnodupPools : (poolParts g.pools).Nodup ↔ (g.pools.map fun p => ident p.name).Nodup :=
    nodup_owned_iff (by decide) (by decide)
  have hnodupCutscenes : (cutsceneParts g).Nodup ↔ (g.cutscenes.map fun c => ident c.name).Nodup :=
    (nodup_owned_iff (by decide) (by decide)).trans nodup_map_front_iff
  have hnodupMaps : (mapParts g).Nodup ↔ (g.maps.map fun m => ident m.name).Nodup :=
    (nodup_owned_iff (by decide) (by decide)).trans nodup_map_front_iff
  have hnodupMachines : (machineParts g).Nodup ↔ (g.machines.map fun m => ident m.name).Nodup :=
    nodup_owned_iff (by decide) (by decide)
  have hpoolsRest := hpools.ne (hcutscenes.append (hmaps.append hrest)) (by decide)
  have hcutscenesRest := hcutscenes.ne (hmaps.append hrest) (by decide)
  have hmapsRest := hmaps.ne hrest (by decide)
  have hfixedRest : (∀ p ∈ fixedParts g, ∀ q ∈ poolParts g.pools ++ (cutsceneParts g ++ (mapParts g ++
      (machineParts g ++ handlerParts g))), p ≠ q) ↔ ∀ m ∈ g.machines, ident m.name ≠ "scene" := by
    rw [← fixedParts_ne_machineParts_iff hscenes]
    simp only [List.forall_mem_append]
    refine forall₂_congr fun p hp => ?_
    have hp₁ := hfixed.ne hpools (by decide) p hp
    have hp₂ := fixedParts_ne_cutsceneParts p hp
    have hp₃ := hfixed.ne hmaps (by decide) p hp
    have hp₄ := fixedParts_ne_handlerParts p hp
    exact ⟨fun h => h.2.2.2.1,fun h => ⟨hp₁,hp₂,hp₃,h,hp₄⟩⟩
  rw [parts, hlive, List.nodup_append, List.nodup_append, List.nodup_append, List.nodup_append, List.nodup_append,
    hnodupPools, hnodupCutscenes, hnodupMaps, hnodupMachines, hfixedRest, and_iff_right (nodup_fixedParts g),
    and_iff_left hpoolsRest, and_iff_left hcutscenesRest, and_iff_left hmapsRest]
  simp only [and_assoc]

theorem nodup_accessorNames_iff (g : Game) : (accessorNames g).Nodup ↔
    ∀ layout ∈ g.save, (layout.fields.map fun f => ident f.name).Nodup := by
  have hname (a b : Save.Field) : ∀ v ∈ accessorFronts, ∀ w ∈ accessorFronts,
      v ++ ident a.name = w ++ ident b.name ↔ ident a.name = ident b.name ∧ v = w := by
    intro v hv w hw
    simp only [accessorFronts, List.mem_cons, List.not_mem_nil, or_false] at hv hw
    rcases hv with rfl | rfl <;> rcases hw with rfl | rfl <;> simp [← String.toList_inj]
  rw [accessorNames]
  cases g.save with
  | none => simp
  | some layout =>
    rw [Option.toList_some, List.flatMap_singleton, nodup_flatMap_map_iff (by decide) (by decide) hname]
    simp

theorem isWord_parts : ∀ p ∈ parts g, IsWord p.2 := by
  have hwords : WordsIn (allFixedParts.map Prod.snd ++ (poolWords ++ (cutsceneWords ++ (["find"] ++
      (machineWords ++ ["enter", "frame", "exit"]))))) (parts g) :=
    wordsIn_fixedParts.append (wordsIn_owned.append (wordsIn_owned.append (wordsIn_owned.append
      (wordsIn_owned.append wordsIn_handlerParts))))
  have hword : ∀ word ∈ allFixedParts.map Prod.snd ++ (poolWords ++ (cutsceneWords ++ (["find"] ++
      (machineWords ++ ["enter", "frame", "exit"])))), IsWord word := by decide
  exact fun p hp => hword p.2 (hwords p hp)

theorem compound_ne_main (p : String × String) : compound p ≠ "main" := by
  intro h
  have hmem : '_' ∈ (compound p).toList := by simp [toList_compound]
  rw [h] at hmem
  revert hmem
  decide

/-- No accessor has a name without the front of one. -/
theorem accessorNames_ne {text : String} (h : ∀ front ∈ accessorFronts, ¬front.toList <+: text.toList) :
    ∀ name ∈ accessorNames g, name ≠ text := by
  rintro _ hname rfl
  simp only [accessorNames, List.mem_flatMap, List.mem_map] at hname
  obtain ⟨layout,-,f,-,front,hfront,rfl⟩ := hname
  exact h front hfront (String.toList_append ▸ List.prefix_append _ _)

/-- Of the functions with an owner, only those of pools and state machines can have the names of accessors. -/
theorem accessorNames_ne_parts_iff (hlive : Game.Slots.livePools g = g.pools) :
    (∀ name ∈ accessorNames g, ∀ other ∈ (parts g).map compound, name ≠ other) ↔
      ∀ name ∈ accessorNames g, ∀ p ∈ poolParts g.pools ++ machineParts g, name ≠ compound p := by
  have hfixed : ∀ p ∈ allFixedParts, ∀ front ∈ accessorFronts, ¬front.toList <+: (compound p).toList := by
    decide +kernel
  have hcutscenes : ∀ p ∈ cutsceneParts g, ∀ front ∈ accessorFronts, ¬front.toList <+: (compound p).toList := by
    intro p hp
    obtain ⟨c,-,word,-,rfl⟩ := mem_owned.mp hp
    simp [accessorFronts, toList_compound]
  have hmaps : ∀ p ∈ mapParts g, ∀ front ∈ accessorFronts, ¬front.toList <+: (compound p).toList := by
    intro p hp
    obtain ⟨m,-,word,-,rfl⟩ := mem_owned.mp hp
    simp [accessorFronts, toList_compound]
  have hhandlers : ∀ p ∈ handlerParts g, ∀ front ∈ accessorFronts, ¬front.toList <+: (compound p).toList := by
    intro p hp
    obtain ⟨scene,-,h,-,rfl⟩ := mem_handlerParts.mp hp
    simp [accessorFronts, toList_compound]
  refine forall₂_congr fun name hname => ?_
  simp only [parts, hlive, List.forall_mem_map, List.forall_mem_append]
  have h₁ : ∀ p ∈ fixedParts g, name ≠ compound p := fun p hp =>
    accessorNames_ne (hfixed p (mem_allFixedParts hp)) name hname
  have h₂ : ∀ p ∈ cutsceneParts g, name ≠ compound p := fun p hp => accessorNames_ne (hcutscenes p hp) name hname
  have h₃ : ∀ p ∈ mapParts g, name ≠ compound p := fun p hp => accessorNames_ne (hmaps p hp) name hname
  have h₄ : ∀ p ∈ handlerParts g, name ≠ compound p := fun p hp => accessorNames_ne (hhandlers p hp) name hname
  exact ⟨fun h => ⟨h.2.1,h.2.2.2.2.1⟩,fun h => ⟨h₁,h.1,h₂,h₃,h.2,h₄⟩⟩

/-- The names of all functions differ if and only if the names of the game keep them apart. -/
theorem nodup_names_iff (hlive : Game.Slots.livePools g = g.pools) (hscenes : g.scenes ≠ []) :
    ((definitions g).map Header.name).Nodup ↔ FunctionsApart g := by
  have hmain : ∀ name ∈ (parts g).map compound, ∀ other ∈ ["main"], name ≠ other := by
    refine List.forall_mem_map.mpr fun p _ => List.forall_mem_singleton.mpr ?_
    exact compound_ne_main p
  have haccessors : (∀ name ∈ accessorNames g, ∀ other ∈ (parts g).map compound ++ ["main"], name ≠ other) ↔
      ∀ name ∈ accessorNames g, ∀ p ∈ poolParts g.pools ++ machineParts g, name ≠ compound p := by
    rw [← accessorNames_ne_parts_iff hlive]
    refine forall₂_congr fun name hname => ?_
    rw [List.forall_mem_append, List.forall_mem_singleton, and_iff_left (accessorNames_ne (by decide) name hname)]
  rw [(names_perm g).nodup_iff, List.nodup_append, List.nodup_append, haccessors, nodup_accessorNames_iff,
    nodup_map_compound_iff isWord_parts, nodup_parts_iff hlive hscenes, nodup_handlerParts_iff,
    machineParts_ne_handlerParts_iff]
  constructor
  · rintro ⟨hfields,⟨⟨hpools,hcutscenes,hmaps,hmachines,hhandlers,hshared,hdispatchers⟩,-,-⟩,hother⟩
    exact ⟨hpools,hcutscenes,hmaps,hmachines,hhandlers,hfields,hdispatchers,hshared,hother⟩
  · intro h
    exact ⟨h.fields,⟨⟨h.pools,h.cutscenes,h.maps,h.machines,h.handlers,h.scenes,h.dispatchers⟩,
      List.nodup_singleton _,hmain⟩,h.accessors⟩

end distinct

end Cartridge.Program
