import Cartridge.Proofs.Program.Closed
import Cartridge.Proofs.Program.Comment
import Cartridge.Proofs.Program.FunctionName

/-!
The names a file declares. Checks compare the names of a game as they are written, while a file has them as C names,
in capitals, and with words in front and behind. It is said exactly for which games that pass all checks the members
of every enumeration differ, and for which the names of all functions do.
-/
namespace Cartridge

open Code Code.Emission Code.Name Lower

namespace Machine.Emit

def stateMembers (m : Machine) : List String := members (upper m.name ++ "_STATE_") (m.states.map State.name)

theorem holds_stateMembers {s : Scope} {m : Machine} (hm : m ∈ s.game.machines) :
    (numbers s).Holds (.mark (.line (enumeration (stateMembers m)))) := by
  have hmember : enumeration (stateMembers m) ∈ s.game.machines.flatMap stateNumbers := by
    refine List.mem_flatMap.mpr ⟨m,hm,?_⟩
    simp [stateNumbers, stateMembers, members, state, Function.comp_def, String.append_assoc]
  have hmachines : s.game.machines ≠ [] := List.ne_nil_of_mem hm
  rw [numbers, if_neg (by simpa using hmachines)]
  exact .right (.right (.left (holds_verbatim hmember)))

end Machine.Emit

namespace Program

variable {g : Game} {o : Options}

def enumerations (g : Game) : List (List String) :=
  members "SCENE_" (g.scenes.map Scene.name) ::
    ((if g.instances = [] ∧ g.tags = [] then [] else [members "TAG_" g.tags]) ++
      g.machines.map Machine.Emit.stateMembers)

/-- What keeps the members of every enumeration apart. -/
structure MembersApart (g : Game) : Prop where
  scenes : Enumerable (g.scenes.map Scene.name)
  tags : Enumerable g.tags
  states : ∀ m ∈ g.machines, Enumerable (m.states.map Machine.State.name)

theorem nodup_enumerations_iff (g : Game) : (∀ names ∈ enumerations g, names.Nodup) ↔ MembersApart g := by
  have htags : (∀ names ∈ if g.instances = [] ∧ g.tags = [] then [] else [members "TAG_" g.tags], names.Nodup) ↔
      Enumerable g.tags := by
    split
    next hnone => simp [hnone.2, enumerable_nil]
    next => rw [List.forall_mem_singleton, nodup_members_iff]
  rw [enumerations, List.forall_mem_cons, List.forall_mem_append, List.forall_mem_map, htags, nodup_members_iff]
  constructor
  · rintro ⟨hscenes,htags,hstates⟩
    exact ⟨hscenes,htags,fun m hm => nodup_members_iff.mp (hstates m hm)⟩
  · intro h
    exact ⟨h.scenes,h.tags,fun m hm => nodup_members_iff.mpr (h.states m hm)⟩

theorem holds_enumeration (hscenes : g.scenes ≠ []) : ∀ names ∈ enumerations g,
    (Generator.file { game := g, options := o }).Holds (.mark (.line (enumeration names))) := by
  rw [enumerations, List.forall_mem_cons, List.forall_mem_append, List.forall_mem_map]
  have hscene : (Scene.Emit.numbers ⟨g, o.lower⟩).Holds
      (.mark (.line (enumeration (members "SCENE_" (g.scenes.map Scene.name))))) := by
    rw [Scene.Emit.numbers, if_neg (by simpa using hscenes)]
    exact .right (.left (holds_emit (by simp [members, scene, Function.comp_def])))
  have htags (hsome : ¬(g.instances = [] ∧ g.tags = [])) : (Game.Slots.data ⟨g, o.lower⟩).Holds
      (.mark (.line (enumeration (members "TAG_" g.tags)))) := by
    have htable (rest : Emission Unit) : (do
        banner
        line (enumeration (g.tags.map tag ++ ["TAG_COUNT"]))
        rest).Holds (.mark (.line (enumeration (members "TAG_" g.tags)))) :=
      .right (.left (holds_emit List.mem_cons_self))
    have hshown : ¬((g.instances.length = 0 && g.tags.isEmpty) = true) := by simpa using hsome
    unfold Game.Slots.data
    simp only [if_neg hshown]
    split
    · exact .right (htable _)
    · exact htable _
  refine ⟨@holds_file_of_content g o .sceneEnum _ hscene,?_,fun m hm => ?_⟩
  · split
    next => simp
    next hsome =>
      rw [List.forall_mem_singleton]
      exact @holds_file_of_content g o .poolData _ (htags hsome)
  · exact @holds_file_of_content g o .stateMachineEnums _ (Machine.Emit.holds_stateMembers hm)

theorem isSome_entity? {entity : String} (h : entity ∈ g.entities.map Entity.name) : (g.entity? entity).isSome := by
  simpa [Game.entity?] using h

/-- If pools have different names and declared entities, all have slots. -/
theorem livePools_eq (hnames : (g.pools.map Pool.name).Nodup) (hpools : g.AreSpawning g.pools) :
    Game.Slots.livePools g = g.pools := by
  have hspawning : g.spawning = g.pools := List.filter_eq_self.mpr hpools
  refine List.filter_eq_self.mpr fun p hp => ?_
  obtain ⟨before,after,hsplit⟩ := List.append_of_mem (hspawning ▸ hp)
  rw [Game.poolRange?_of_split hnames hsplit, Option.isSome_some]

/-- In a strict run's file, the members of every enumeration differ if and only if names of the game keep them apart,
and the names of all functions differ if and only if names of the game keep these apart. -/
theorem names_differ_iff {file : Generated} (hstrict : o.strict = true) (h : generate g o = .ok file) :
    (∀ names ∈ enumerations g, StandsIn (enumeration names) file.source) ∧
    ((∀ names ∈ enumerations g, names.Nodup) ↔ MembersApart g) ∧
    (((Generator.file { game := g, options := o }).defined.map Header.name).Nodup ↔ FunctionsApart g) := by
  obtain ⟨hclean,-⟩ := (exists_file_iff hstrict).mp ⟨file,h⟩
  have hclosed := closed_of_clean hclean
  have hdefined : (Generator.file { game := g, options := o }).defined = definitions g :=
    Generator.defines_file rfl hclean.1.choose_spec
  have hlive : Game.Slots.livePools g = g.pools :=
    livePools_eq hclosed.poolNames fun p hp => isSome_entity? (hclosed.pools p hp)
  refine ⟨fun names hnames => ?_,nodup_enumerations_iff g,?_⟩
  · exact standsIn_source h (holds_enumeration hclosed.scene names hnames) (fun _ => rfl)
      (by simp +decide [enumeration])
  · rw [hdefined]
    exact nodup_names_iff hlive hclosed.scene

theorem courtyard_names_differ : ∃ file, generate courtyard {} = .ok file ∧
    (∀ names ∈ enumerations courtyard, names.Nodup ∧ StandsIn (enumeration names) file.source) ∧
    ((Generator.file { game := courtyard, options := {} }).defined.map Header.name).Nodup := by
  obtain ⟨file,h⟩ := exists_courtyard_file
  obtain ⟨hstand,-,hfunctions⟩ := names_differ_iff (o := {}) rfl h
  have hmembers : ∀ names ∈ enumerations courtyard, names.Nodup := by decide +kernel
  have hapart : FunctionsApart courtyard :=
    { pools := by decide +kernel
      cutscenes := by decide +kernel
      maps := by decide +kernel
      machines := by decide +kernel
      handlers := fun hook => by cases hook <;> decide +kernel
      fields := by
        rintro _ ⟨⟩
        decide +kernel
      dispatchers := by decide +kernel
      scenes := by decide +kernel
      accessors := by decide +kernel }
  exact ⟨file,h,fun names hnames => ⟨hmembers names hnames,hstand names hnames⟩,hfunctions.mpr hapart⟩

def twins : Game where
  name := "twins"
  scenes := [
    { name := "cave 1", onEnter := [.raw "dark();" none] },
    { name := "cave_1", onEnter := [.raw "wet();" none] }]

/-- Checks accept the two scenes, and a member and a function occur twice. -/
theorem twins_share_names : ∃ file, generate twins {} = .ok file ∧
    StandsIn "enum \x7b SCENE_CAVE_1, SCENE_CAVE_1, SCENE_COUNT \x7d;" file.source ∧
    ¬(∀ names ∈ enumerations twins, names.Nodup) ∧
    ¬((Generator.file { game := twins, options := {} }).defined.map Header.name).Nodup := by
  have hclean : (Generator.file { game := twins, options := {} }).Clean :=
    ⟨⟨(),by decide +kernel⟩,by decide +kernel⟩
  obtain ⟨file,h⟩ := (exists_file_iff rfl).mpr ⟨hclean,by decide +kernel⟩
  refine ⟨file,h,?_,by decide +kernel,by decide +kernel⟩
  have hmember : members "SCENE_" ["cave 1", "cave_1"] ∈ enumerations twins := List.mem_cons_self
  have hstand := standsIn_source h (holds_enumeration (by decide) _ hmember) (fun _ => rfl) (by decide +kernel)
  have htext : enumeration (members "SCENE_" ["cave 1", "cave_1"]) =
      "enum \x7b SCENE_CAVE_1, SCENE_CAVE_1, SCENE_COUNT \x7d;" := by decide +kernel
  exact htext ▸ hstand

end Program

end Cartridge
