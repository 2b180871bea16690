import Cartridge.Program.Generator
import Cartridge.Proofs.Lower.Line

/-!
The parts of a file in which no text of the author's stands as it is. They are built from C names,
numbers and fixed texts, so that each of their lines stays one.
-/
namespace Cartridge.Program

open Code Code.Emission Lower Text

variable {s : Scope}

@[simp] theorem unbroken_closeBrace : Unbroken Mark.closeBrace := by decide

@[simp] theorem unbroken_elseText : Unbroken elseText := by decide

@[simp] theorem unbroken_elseIfText {test : String} :
    Unbroken (elseIfText test) ↔ Unbroken test := by
  simp +decide [elseIfText]

@[simp] theorem unbroken_procedure {name : String} :
    Unbroken (Header.procedure name).signature ↔ Unbroken name := by
  simp +decide [Header.procedure]

@[simp] theorem unbroken_prototype {h : Header} : Unbroken h.prototype ↔ Unbroken h.signature := by
  simp +decide [Header.prototype]

@[simp] theorem unbroken_scene (name : String) : Unbroken (Name.scene name) := by
  simp +decide [Name.scene]

@[simp] theorem unbroken_tag (name : String) : Unbroken (Name.tag name) := by
  simp +decide [Name.tag]

@[simp] theorem unbroken_length (name : String) : Unbroken (Name.length name) := by
  simp +decide [Name.length]

@[simp] theorem unbroken_state (machine state : String) : Unbroken (Name.state machine state) := by
  simp +decide [Name.state]

@[simp] theorem unbroken_cutsceneStep (name : String) : Unbroken (Name.cutsceneStep name) := by
  simp +decide [Name.cutsceneStep]

theorem inert_overlapHelper : (Physics.Emit.overlapHelper s).Inert := by
  simp [Physics.Emit.overlapHelper, Physics.Emit.overlap]
  intros
  and_intros <;> exact unbroken_literal (by decide)

section checks

open Check

/-- Checks only tell where they are and what is broken. -/
theorem every_checks {p : Item → Prop} (henter : ∀ place, p (.enter place))
    (hproblem : ∀ rule message, p (.problem rule message none)) : (Check.emit s).Every p := by
  have hscenes : (scenes s.game).Every p := by
    cases h : s.game.initialScene <;> simp [scenes, report, problem, h, henter, hproblem]
  have hnames : (names s.game).Every p := by
    simp [names, distinct, report, problem, henter, hproblem]
  have hentities : (entities s.game).Every p := by
    simp [entities, pool, report, problem, henter, hproblem]
  have hpair (pair : Physics.Pair) : (Check.pair s.game pair).Every p := by
    simp [Check.pair, pairTag, report, problem, hproblem]
  have hphysics : (physics s.game).Every p := by
    cases h : s.game.physics <;> simp [physics, body, hpair, report, problem, h, henter, hproblem]
  have hmap (m : Nav.Map) : (map m).Every p :=
    (every_ofOption _).bind fun _ _ => by simp [report, problem, hproblem]
  have hcutscene (c : Cutscene) : (cutscene c).Every p := by
    simp [cutscene, report, problem, hproblem]
  simp [Check.emit, navigation, cutscenes, henter, hscenes, hnames, hentities, hphysics, hmap,
    hcutscene]

theorem inert_checks : (Check.emit s).Inert := every_checks (by simp) (by simp)

end checks

section pools

open Game.Slots

@[simp] theorem unbroken_column {declarator : String} {values : List String} :
    Unbroken (column declarator values) ↔ Unbroken declarator ∧ AreUnbroken values := by
  simp +decide [column]

theorem areUnbroken_table (g : Game) : AreUnbroken (table g) := by
  have hslot (i : Instance) (slot : Nat) (t : String) (ht : slotConstant i slot = some t) :
      Unbroken t := by
    rw [slotConstant] at ht
    split at ht
    · cases ht
      simp +decide
    · cases ht
  have hranges (p : Pool) : AreUnbroken (rangeConstants g p) := by
    rw [rangeConstants]
    cases g.poolRange? p.name <;> simp +decide [firstName, capacityName]
  have hcolumns : AreUnbroken (columns g.instances) := by
    have hone : Unbroken "1" := by decide
    have hzero : Unbroken "0" := by decide
    simp [columns, hone, hzero]
    and_intros <;> exact unbroken_literal (by decide)
  simp only [table, List.cons_append, areUnbroken_cons, areUnbroken_append, areUnbroken_filterMap,
    areUnbroken_flatMap]
  exact ⟨by simp +decide,⟨fun x _ t ht => hslot x.1 x.2 t ht,fun p _ => hranges p⟩,hcolumns⟩

theorem inert_poolData : (data s).Inert := by
  simp +decide [data, areUnbroken_table]

theorem unbroken_spawn (p : Pool) : Unbroken (spawn p).signature := by
  simp [spawn]
  and_intros <;> exact unbroken_literal (by decide)

theorem unbroken_despawn (p : Pool) : Unbroken (despawn p).signature := by
  simp [despawn]
  and_intros <;> exact unbroken_literal (by decide)

theorem inert_poolFunctions : (functions s).Inert := by
  have hpool (p : Pool) : (poolFunctions p).Inert := by
    simp [poolFunctions, firstName, capacityName, unbroken_spawn, unbroken_despawn]
    and_intros <;> exact unbroken_literal (by decide)
  simp [functions, hpool]

end pools

theorem inert_sceneNumbers : (Scene.Emit.numbers s).Inert := by
  simp [Scene.Emit.numbers]
  intros
  and_intros <;> exact unbroken_literal (by decide)

theorem inert_stateNumbers : (Machine.Emit.numbers s).Inert := by
  simp [Machine.Emit.numbers, Machine.Emit.stateNumbers, Machine.Emit.variableName]
  intros
  and_intros <;> exact unbroken_literal (by decide)

theorem inert_entryPoint : (Scene.Emit.entryPoint s).Inert := by
  have hcall {name : String} : Unbroken (Scene.Emit.call name) ↔ Unbroken name := by
    simp +decide [Scene.Emit.call]
  cases h : Scene.Emit.start? s.game <;>
    simp [Scene.Emit.entryPoint, Scene.Emit.main, Scene.Emit.setUp, Scene.Emit.perFrame, hcall, h]
  all_goals and_intros <;> intros <;> exact unbroken_literal (by decide)

section fades

open Cutscene.Fade

theorem inert_fades : (Cutscene.Fade.emit s).Inert := by
  simp [Cutscene.Fade.emit, Cutscene.Fade.data, stepBody, start, step, Cutscene.Effect.all,
    effectName, List.zipIdx]
  intros
  and_intros <;> exact unbroken_literal (by decide)

end fades

section navigation

open Nav.Emit

theorem inert_helpers : helpers.Inert := by
  simp [helpers, heapBefore, push, pushBody, pop, popBody, estimate, walk]
  and_intros <;> exact unbroken_literal (by decide)

theorem inert_search : searchBody.Inert := by
  simp [searchBody, searchStart, neighbourBody]
  and_intros <;> exact unbroken_literal (by decide)

theorem areUnbroken_tables : AreUnbroken tables := by
  simp [tables]
  and_intros <;> exact unbroken_literal (by decide)

theorem unbroken_find (m : Nav.Map) : Unbroken (find m).signature := by
  simp [find]
  and_intros <;> exact unbroken_literal (by decide)

set_option maxRecDepth 1024 in
theorem unbroken_search : Unbroken search.signature := by
  simp [search]
  exact unbroken_literal (by decide)

theorem inert_map (m : Nav.Map) : (Nav.Emit.map m).Inert := by
  have hlayer {name : String} {bytes : List UInt8} :
      Unbroken (layer name bytes) ↔ Unbroken name := by simp +decide [layer]
  have hflag (b : Bool) : Unbroken (flag b) := by cases b <;> decide
  cases h : m.grid.weights <;>
    simp [Nav.Emit.map, unbroken_find, hflag, hlayer, h]
  all_goals and_intros <;> intros <;> and_intros <;> exact unbroken_literal (by decide)

theorem inert_navigation : (Nav.Emit.emit s).Inert := by
  simp [Nav.Emit.emit, inert_helpers, inert_search, inert_map, areUnbroken_tables, unbroken_search]

end navigation

section save

open Save Save.Emit

@[simp] theorem unbroken_fieldType (t : FieldType) : Unbroken t.cType := by cases t <;> decide

theorem unbroken_getter (f : Field) : Unbroken (getter f).signature := by
  simp [getter]
  and_intros <;> intros <;> exact unbroken_literal (by decide)

theorem unbroken_setter (f : Field) : Unbroken (setter f).signature := by
  simp [setter]
  and_intros <;> intros <;> exact unbroken_literal (by decide)

@[simp] theorem unbroken_offsetName (f : Field) : Unbroken (offsetName f) := by
  simp +decide [offsetName]

@[simp] theorem unbroken_lengthName (f : Field) : Unbroken (lengthName f) := by
  simp +decide [lengthName]

theorem unbroken_magicText (m : Magic) : Unbroken (magicText m) := by
  unfold magicText
  simp
  and_intros <;> exact unbroken_literal (by decide)

theorem areUnbroken_layout (schema : Schema) : AreUnbroken (layout schema) := by
  have hfield (f : Field) : AreUnbroken (fieldConstants f) := by
    cases h : f.arrayLength <;> simp [fieldConstants, h]
  cases h : schema.magic <;> simp [layout, hfield, unbroken_magicText, h]
  all_goals and_intros <;> exact unbroken_literal (by decide)

theorem inert_checksum (c : Checksum) : (checksumFunction c).Inert := by
  cases c <;> simp [checksumFunction, checksum, crcBody]
  all_goals and_intros <;> exact unbroken_literal (by decide)

theorem unbroken_elementOffset (f : Field) : Unbroken (elementOffset s f) := by
  rw [elementOffset]
  split_ifs <;> simp +decide

theorem unbroken_readText {o : String} (ho : Unbroken o) (t : FieldType) :
    Unbroken (readText t o) := by
  unfold readText
  cases t <;> simp [ho]
  all_goals and_intros <;> exact unbroken_literal (by decide)

theorem areUnbroken_writeLines {o : String} (ho : Unbroken o) (t : FieldType) :
    AreUnbroken (writeLines t o) := by
  cases t <;> simp [writeLines, ho]
  all_goals and_intros <;> exact unbroken_literal (by decide)

theorem inert_accessors (f : Field) : (accessors s f).Inert := by
  have hoffset : Unbroken (offsetText s f) := by
    rw [offsetText]
    split
    · decide
    · exact unbroken_elementOffset f
  have hlines : AreUnbroken (offsetLines s f) := by
    simp [offsetLines, unbroken_elementOffset]
    intros
    and_intros <;> exact unbroken_literal (by decide)
  simp [accessors, unbroken_getter, unbroken_setter, hlines, unbroken_readText hoffset,
    areUnbroken_writeLines hoffset]
  and_intros <;> exact unbroken_literal (by decide)

theorem areUnbroken_headerLines (schema : Schema) : AreUnbroken (headerLines schema) := by
  simp [headerLines]
  and_intros <;> intros <;> exact unbroken_literal (by decide)

theorem areUnbroken_resetLines (schema : Schema) : AreUnbroken (resetLines schema) := by
  have hdefault : AreUnbroken (schema.fields.filterMap defaultLine) := by
    refine areUnbroken_filterMap.mpr fun f _ t (hf : defaultLine f = some t) => ?_
    unfold defaultLine at hf
    split_ifs at hf
    · cases hf
      simp [setter]
      and_intros <;> exact unbroken_literal (by decide)
    · cases hf
      simp [setter]
      and_intros <;> exact unbroken_literal (by decide)
  simp [resetLines, areUnbroken_headerLines, hdefault]
  and_intros <;> intros <;> exact unbroken_literal (by decide)

theorem areUnbroken_validateLines (schema : Schema) : AreUnbroken (validateLines schema) := by
  cases h : schema.checksum <;> simp [validateLines, h]
  all_goals and_intros <;> intros <;> exact unbroken_literal (by decide)

theorem areUnbroken_commitLines (schema : Schema) : AreUnbroken (commitLines schema) := by
  cases h : schema.checksum <;>
    simp [commitLines, areUnbroken_headerLines, sealLines, slotAddress, h]
  all_goals and_intros <;> exact unbroken_literal (by decide)

theorem inert_load : loadBody.Inert := by
  simp [loadBody, slotAddress]
  and_intros <;> exact unbroken_literal (by decide)

theorem inert_save : (Save.Emit.emit s).Inert := by
  rw [Save.Emit.emit]
  cases s.game.save with
  | none => simp
  | some schema =>
    simp [Save.Emit.schema, areUnbroken_layout, inert_checksum, inert_accessors,
      areUnbroken_resetLines, areUnbroken_validateLines, areUnbroken_commitLines, inert_load,
      reset, validate, commit, load]
    intros
    and_intros <;> exact unbroken_literal (by decide)

end save

section physics

open Physics.Emit

theorem areUnbroken_bodyTables (w : Physics.World) (all : List Instance) :
    AreUnbroken (tables w all) := by
  have hfriction (entity : String) : Unbroken (frictionText w entity) := by
    rw [frictionText]
    split
    · simp
    · decide
  have hmass (entity : String) : Unbroken (massText w entity) := by simp [massText]
  have hlimit (entity : String) (limit : Physics.BodyDef → Fixed) :
      Unbroken (limitText w entity limit) := by simp [limitText]
  simp [tables, fixedConstant, bodyTable, zoneTable, zoneColumn, hfriction, hmass, hlimit]
  and_intros <;> intros <;> and_intros <;> exact unbroken_literal (by decide)

theorem inert_separateOn {axis size delta velocity : String} (haxis : Unbroken axis)
    (hsize : Unbroken size) (hdelta : Unbroken delta) (hvelocity : Unbroken velocity) :
    (separateOn axis size delta velocity).Inert := by
  have hfar (slot : String) (hslot : Unbroken slot) : Unbroken (farText axis size slot) := by
    unfold farText
    simp [haxis, hsize, hslot]
    and_intros <;> exact unbroken_literal (by decide)
  simp [separateOn, haxis, hdelta, hvelocity, hfar "a" (by decide), hfar "b" (by decide)]
  and_intros <;> exact unbroken_literal (by decide)

theorem inert_separate : separateBody.Inert := by
  have hx : (separateOn "x" "w" "dx" "vx").Inert :=
    inert_separateOn (by decide) (by decide) (by decide) (by decide)
  have hy : (separateOn "y" "h" "dy" "vy").Inert :=
    inert_separateOn (by decide) (by decide) (by decide) (by decide)
  simp [separateBody, hx, hy]
  and_intros <;> exact unbroken_literal (by decide)

theorem inert_integrate : integrateBody.Inert := by
  simp [integrateBody, clampLines]
  and_intros <;> exact unbroken_literal (by decide)

theorem inert_gravity (w : Physics.World) : (gravityBody w).Inert := by
  simp [gravityBody]
  and_intros <;> intros <;> and_intros <;> exact unbroken_literal (by decide)

end physics

section scenes

open Scene.Emit

theorem unbroken_hook (h : Hook) : Unbroken h.name := by cases h <;> decide

theorem unbroken_handler (h : Hook) (scene : Scene) : Unbroken (h.handler scene).signature := by
  simp [Hook.handler, unbroken_hook]
  and_intros <;> exact unbroken_literal (by decide)

theorem unbroken_dispatcher (h : Hook) : Unbroken h.dispatcher.signature := by
  cases h <;> decide

end scenes

section preamble

/-- The heads of all functions that other sections may call. -/
theorem areUnbroken_prototypesOf (place : Section) : AreUnbroken (prototypesOf s place) := by
  cases place with
  | collisionHelpers =>
    simp [prototypesOf, Physics.Emit.overlapPrototypes, Physics.Emit.overlap]
    intro _
    exact unbroken_literal (by decide)
  | saveData =>
    rw [prototypesOf, Save.Emit.prototypes]
    cases s.game.save with
    | none => simp
    | some schema =>
      simp only [Save.Emit.headers, List.map_append, List.map_flatMap, areUnbroken_append,
        areUnbroken_flatMap]
      simp [unbroken_getter, unbroken_setter, Save.Emit.reset, Save.Emit.validate, Save.Emit.commit,
        Save.Emit.load]
      and_intros <;> exact unbroken_literal (by decide)
  | poolFunctions => simp [prototypesOf, Game.Slots.prototypes, unbroken_spawn, unbroken_despawn]
  | cutsceneFunctions =>
    simp +decide [prototypesOf, Cutscene.Emit.prototypes, Cutscene.Emit.start, Cutscene.Emit.step,
      Cutscene.Emit.base]
  | stateMachineUpdate =>
    simp +decide [prototypesOf, Machine.Emit.prototypes, Machine.Emit.start, Machine.Emit.update]
  | cameraTransition =>
    simp +decide [prototypesOf, Cutscene.Fade.prototypes, Cutscene.Fade.start, Cutscene.Fade.step]
  | navigation => simp [prototypesOf, Nav.Emit.prototypes, unbroken_find, unbroken_search]
  | physicsFunctions => simp +decide [prototypesOf, Physics.Emit.prototypes, Physics.Emit.step]
  | sceneFunctions =>
    rw [prototypesOf, Scene.Emit.prototypes]
    simp only [List.map_append, List.map_flatMap, areUnbroken_append, areUnbroken_flatMap,
      areUnbroken_ite]
    simp +decide [unbroken_handler, Scene.Emit.change]
  | _ => simp [prototypesOf]

/-- Of the head of a file, only the name of the game is the author's. -/
theorem laid_preamble {noted : Location → List Item → Prop} :
    (Preamble.emit s (prototypes s)).Laid noted (Unbroken s.game.name) := by
  have htitle : Unbroken (Preamble.title s.game) ↔ Unbroken s.game.name := by
    unfold Preamble.title
    simp +decide
  have hprototypes : AreUnbroken (prototypes s) := by
    simp [prototypes, areUnbroken_prototypesOf]
  refine .congr (Laid.before (laid_mark _) ?_) (by simpa using htitle)
  simp [Preamble.includes, Preamble.boundsCheck, hprototypes]
  and_intros <;> exact unbroken_literal (by decide)

end preamble

end Cartridge.Program
