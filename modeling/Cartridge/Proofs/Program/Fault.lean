import Cartridge.Program.Generator
import Cartridge.Proofs.Code.Height
import Cartridge.Proofs.Lower.Stmt

/-!
When generating a file faults: a navigation grid holds too few bits, a cutscene has more frames than
32 bits count, a save slot ends past 16 bits, or the file has more lines than 32 bits count. In all
other cases there is an answer.
-/
namespace Cartridge

open Code Code.Emission Lower

namespace Program

/-- The greatest number of a line that is written to the file of a game, or recorded for a place. -/
def fileLines (g : Game) (o : Lower.Options) : Nat :=
  linesNeeded o.sourceMap (Generator.file { game := g, options := { lower := o } }).items

end Program

/-- Something in a game leaves its range. -/
inductive Game.Overruns (g : Game) (o : Lower.Options) : Prop
  | grid (m : Nav.Map) (hm : m ∈ g.maps) (h : 8 * m.grid.walkable.length < m.grid.tileCount)
  | timeline (c : Cutscene) (hc : c ∈ g.cutscenes) (h : Cutscene.Emit.frameLimit ≤ c.duration)
  | slot (s : Save.Schema) (hs : s ∈ g.save) (h : s.validate = .error .fault)
  | lines (h : Page.maxLines.toNat < Program.fileLines g o)

namespace Program

namespace Check

theorem guards_map (m : Nav.Map) :
    (map m).Guards (m.grid.tileCount ≤ 8 * m.grid.walkable.length) := by
  have h : (map m).Guards m.grid.walkableCount?.isSome :=
    guards_ofOption_bind fun count => by simp [report]
  rw [Nav.Grid.walkableCount?] at h
  simpa using h

theorem guards_cutscene (c : Cutscene) :
    (cutscene c).Guards (c.duration < Cutscene.Emit.frameLimit) := by
  have h : (cutscene c).Guards
      (if c.duration < Cutscene.Emit.frameLimit then some () else none).isSome :=
    guards_ofOption_bind fun _ => by simp [report]
  simpa using h

theorem ends_scenes (g : Game) : (scenes g).Ends := by
  cases h : g.initialScene <;> simp [scenes, report, h]

theorem ends_names (g : Game) : (names g).Ends := by
  simp [names, distinct, report]

theorem ends_entities (g : Game) : (entities g).Ends := by
  simp [entities, pool, report]

theorem ends_physics (g : Game) : (physics g).Ends := by
  cases h : g.physics <;> simp [physics, pair, pairTag, body, report, h]

/-- The checks fault at a grid with too few bits or a cutscene with too many frames, and else go
through. -/
theorem guards_emit (s : Scope) :
    (emit s).Guards ((∀ m ∈ s.game.maps, m.grid.tileCount ≤ 8 * m.grid.walkable.length) ∧
      ∀ c ∈ s.game.cutscenes, c.duration < Cutscene.Emit.frameLimit) := by
  have hnavigation : (navigation s.game).Guards
      (∀ m ∈ s.game.maps, m.grid.tileCount ≤ 8 * m.grid.walkable.length) :=
    (ends_emit _).guards (.each guards_map _)
  have hcutscenes : (cutscenes s.game).Guards
      (∀ c ∈ s.game.cutscenes, c.duration < Cutscene.Emit.frameLimit) :=
    (ends_emit _).guards (.each guards_cutscene _)
  exact (ends_scenes _).guards ((ends_names _).guards ((ends_entities _).guards
    ((ends_physics _).guards (hnavigation.bind hcutscenes))))

end Check

theorem faultless_cutscene (s : Scope) {c : Cutscene}
    (h : c.duration < Cutscene.Emit.frameLimit) : (Cutscene.Emit.cutscene s c).Faultless := by
  have haction (a : Cutscene.Action) : (Cutscene.Emit.action s a).Faultless := by
    cases a <;> simp [Cutscene.Emit.action]
  have hswitch : (Cutscene.Emit.frameSwitch s c).Faultless := by
    rw [Cutscene.Emit.frameSwitch]
    split <;> simp [Cutscene.Emit.frameArm, haction]
  have hduration :
      (ofOption (if c.duration < Cutscene.Emit.frameLimit then some () else none)).Faultless := by
    rw [if_pos h]
    exact nofun
  simp [Cutscene.Emit.cutscene, Cutscene.Emit.stepBody, hswitch, hduration]

theorem faultless_world (s : Scope) (w : Physics.World) : (Physics.Emit.world s w).Faultless := by
  have hcollide : (Physics.Emit.collideBody s w).Faultless := by
    have hpair (p : Physics.Pair) : (Physics.Emit.pairLoops s p).Faultless := by
      simp [Physics.Emit.pairLoops]
    rw [Physics.Emit.collideBody]
    split <;> simp [hpair]
  simp [Physics.Emit.world, Physics.Emit.gravityBody, Physics.Emit.integrateBody,
    Physics.Emit.separateBody, Physics.Emit.separateOn, hcollide]

/-- Only the save data of a game can still fault once the checks have gone through. -/
theorem faultless_content {s : Scope}
    (hframes : ∀ c ∈ s.game.cutscenes, c.duration < Cutscene.Emit.frameLimit) {place : Section}
    (h : place ≠ .saveData) : (content s place).Faultless := by
  cases place with
  | saveData => exact absurd rfl h
  | collisionHelpers => simp [content, Physics.Emit.overlapHelper]
  | poolData => simp [content, Game.Slots.data]
  | globals =>
    have harray (a : ArrayDecl) : (Game.Globals.array a).Faultless := by simp [Game.Globals.array]
    simp [content, Game.Globals.emit, harray]
  | stateMachineEnums => simp [content, Machine.Emit.numbers]
  | sceneEnum => simp [content, Scene.Emit.numbers]
  | poolFunctions => simp [content, Game.Slots.functions, Game.Slots.poolFunctions]
  | cutsceneFunctions =>
    have hall : (each (Cutscene.Emit.cutscene s) s.game.cutscenes).Faultless :=
      .each fun c hc => faultless_cutscene s (hframes c hc)
    simp [content, Cutscene.Emit.emit, hall]
  | stateMachineUpdate =>
    simp [content, Machine.Emit.functions, Machine.Emit.machine, Machine.Emit.dispatch,
      Machine.Emit.updateArm]
  | cameraTransition => simp [content, Cutscene.Fade.emit, Cutscene.Fade.stepBody]
  | navigation =>
    simp [content, Nav.Emit.emit, Nav.Emit.helpers, Nav.Emit.map, Nav.Emit.pushBody,
      Nav.Emit.popBody, Nav.Emit.searchBody, Nav.Emit.neighbourBody]
  | physicsFunctions =>
    rw [content, Physics.Emit.emit]
    cases s.game.physics with
    | none => simp
    | some w => exact faultless_world s w
  | sceneFunctions =>
    have hhandlers (scene : Scene) : (Scene.Emit.handlerFunctions s scene).Faultless := by
      simp [Scene.Emit.handlerFunctions]
    simp [content, Scene.Emit.functions, Scene.Emit.dispatch, hhandlers]
  | entryPoint => simp [content, Scene.Emit.entryPoint]
  | _ => simp [content]

theorem faultless_save {s : Scope} (h : ∀ schema ∈ s.game.save, schema.validate ≠ .error .fault) :
    (Save.Emit.emit s).Faultless := by
  rw [Save.Emit.emit]
  cases hs : s.game.save with
  | none => simp
  | some schema =>
    have hchecksum : (Save.Emit.checksumFunction schema.checksum).Faultless := by
      cases schema.checksum <;> simp [Save.Emit.checksumFunction, Save.Emit.crcBody]
    have haccessors (f : Save.Field) : (Save.Emit.accessors s f).Faultless := by
      simp [Save.Emit.accessors]
    simp [Save.Emit.schema, h schema hs, hchecksum, haccessors, Save.Emit.loadBody]

theorem save_faults {s : Scope} {schema : Save.Schema} (hs : schema ∈ s.game.save)
    (h : schema.validate = .error .fault) : (Save.Emit.emit s).result = .error .fault := by
  rw [Save.Emit.emit, Option.mem_def.mp hs]
  simp only [Save.Emit.schema, h]
  rfl

namespace Generator

theorem sectionCode_eq {g : Generator} (h : g.emitters = []) (place : Section) :
    g.sectionCode place = (do enter place; content g.scope place) := by
  simp [sectionCode, emitter?, h]

/-- The sections before the save data have no code that could halt. -/
theorem ends_before_save {g : Generator} (h : g.emitters = []) :
    (each g.sectionCode
      [.paletteData, .tileData, .mapData, .collisionHelpers, .soundData, .mixerData]).Ends := by
  simp [sectionCode_eq h, content, Physics.Emit.overlapHelper]

/-- The code of a file faults if and only if something other than the number of lines leaves its
range. -/
theorem file_fault_iff {g : Generator} (h : g.emitters = []) : g.file.result = .error .fault ↔
    (∃ m ∈ g.game.maps, 8 * m.grid.walkable.length < m.grid.tileCount) ∨
      (∃ c ∈ g.game.cutscenes, Cutscene.Emit.frameLimit ≤ c.duration) ∨
      ∃ s ∈ g.game.save, s.validate = .error .fault := by
  have hpreamble : (Preamble.emit g.scope g.prototypes).Ends := by
    simp [Preamble.emit, Preamble.boundsCheck]
  have hcheck := Check.guards_emit g.scope
  rw [file, hpreamble.bind_eq]
  by_cases hrange : (∀ m ∈ g.game.maps, m.grid.tileCount ≤ 8 * m.grid.walkable.length) ∧
      ∀ c ∈ g.game.cutscenes, c.duration < Cutscene.Emit.frameLimit
  · rw [(hcheck.ends hrange).bind_eq]
    have horder : Section.order =
        [.paletteData, .tileData, .mapData, .collisionHelpers, .soundData, .mixerData] ++
          .saveData :: Section.order.drop 7 := rfl
    have hlater : (each g.sectionCode (Section.order.drop 7)).Faultless := by
      refine .each fun place hplace => ?_
      rw [sectionCode_eq h]
      have hsave : place ≠ .saveData := by
        rintro rfl
        revert hplace
        decide
      exact .bind (by simp) fun _ => faultless_content hrange.2 hsave
    rw [horder, each_append, (ends_before_save h).bind_eq, each, sectionCode_eq h]
    constructor
    · intro hfault
      by_contra hnone
      have hsave : (Save.Emit.emit g.scope).Faultless :=
        faultless_save fun schema hs he => hnone (.inr (.inr ⟨schema,hs,he⟩))
      exact Faultless.bind (.bind (by simp) fun _ => hsave) (fun _ => hlater) hfault
    · rintro (⟨m,hm,hbits⟩ | ⟨c,hc,hlong⟩ | ⟨schema,hs,he⟩)
      · exact absurd (hrange.1 m hm) (by omega)
      · exact absurd (hrange.2 c hc) (by omega)
      · have hsave : (content g.scope .saveData).result = .error .fault :=
          save_faults (s := g.scope) hs he
        rw [bind_assoc, Ends.bind_eq (by simp), bind_error hsave]
  · rw [bind_error (hcheck.fails hrange)]
    refine iff_of_true rfl ?_
    by_contra hnone
    refine hrange ⟨fun m hm => ?_,fun c hc => ?_⟩
    · exact Nat.le_of_not_lt fun hbits => hnone (.inl ⟨m,hm,hbits⟩)
    · exact Nat.lt_of_not_le fun hlong => hnone (.inr (.inl ⟨c,hc,hlong⟩))

end Generator

/-- The answer of a run, from the code of the file. -/
theorem generate_eq (g : Game) (o : Options) :
    generate g o =
      match Context.start.renderAll? o.lower.sourceMap
        (Generator.file { game := g, options := o }).items with
      | none => .error .fault
      | some c =>
        match (Generator.file { game := g, options := o }).result with
        | .error (.error e) => .error (.error (.lower e))
        | .error .fault => .error .fault
        | .ok () => Generator.finish { game := g, options := o } c := by
  rw [generate, Generator.run, Context.take?]
  rcases Context.start.renderAll? o.lower.sourceMap _ with _ | c
  · rfl
  · rcases (Generator.file { game := g, options := o }).result with (e | _) | _ <;> rfl

/-- A run that gives a file has emitted and rendered all of it. -/
theorem generate_eq_ok_iff {g : Game} {o : Options} {file : Generated} : generate g o = .ok file ↔
    ∃ c, Context.start.renderAll? o.lower.sourceMap (Generator.file { game := g, options := o }).items = some c ∧
      (Generator.file { game := g, options := o }).Ends ∧
      Generator.finish { game := g, options := o } c = .ok file := by
  rw [generate_eq]
  cases Context.start.renderAll? o.lower.sourceMap (Generator.file { game := g, options := o }).items with
  | none => simp
  | some c =>
    rw [Ends]
    rcases (Generator.file { game := g, options := o }).result with (e | _) | _ <;> simp

theorem isSome_renderAll_start_iff (g : Game) (o : Options) :
    (Context.start.renderAll? o.lower.sourceMap
      (Generator.file { game := g, options := o }).items).isSome ↔
      fileLines g o.lower ≤ Page.maxLines.toNat := by
  have hrows : Context.start.page.rows.length = 0 := rfl
  rw [Context.isSome_renderAll_iff, hrows, Nat.zero_add]
  rfl

theorem overruns_iff (g : Game) (o : Options) : g.Overruns o.lower ↔
    (Generator.file { game := g, options := o }).result = .error .fault ∨
      Page.maxLines.toNat < fileLines g o.lower := by
  rw [Generator.file_fault_iff rfl]
  constructor
  · rintro (⟨m,hm,h⟩ | ⟨c,hc,h⟩ | ⟨s,hs,h⟩ | h)
    · exact .inl (.inl ⟨m,hm,h⟩)
    · exact .inl (.inr (.inl ⟨c,hc,h⟩))
    · exact .inl (.inr (.inr ⟨s,hs,h⟩))
    · exact .inr h
  · rintro ((⟨m,hm,h⟩ | ⟨c,hc,h⟩ | ⟨s,hs,h⟩) | h)
    · exact .grid m hm h
    · exact .timeline c hc h
    · exact .slot s hs h
    · exact .lines h

/-- A run faults if and only if something leaves its range. -/
theorem generate_fault_iff (g : Game) (o : Options) :
    generate g o = .error .fault ↔ g.Overruns o.lower := by
  have hlines := isSome_renderAll_start_iff g o
  rw [overruns_iff, generate_eq]
  cases hc : Context.start.renderAll? o.lower.sourceMap
      (Generator.file { game := g, options := o }).items with
  | none =>
    rw [hc] at hlines
    exact iff_of_true rfl (.inr (Nat.lt_of_not_le (hlines.not.mp nofun)))
  | some c =>
    rw [hc] at hlines
    rw [or_iff_left (Nat.not_lt.mpr (hlines.mp rfl))]
    rcases (Generator.file { game := g, options := o }).result with (e | _) | _
    · simp
    · simp
    · simp only [Generator.finish]
      split <;> simp

def emptyMap : Game :=
  { name := "walls", scenes := [{ name := "field" }], maps := [⟨"walls", ⟨4, 4, [], none⟩, {}⟩] }

theorem emptyMap_overruns (o : Lower.Options) : emptyMap.Overruns o :=
  .grid ⟨"walls", ⟨4, 4, [], none⟩, {}⟩ (by simp [emptyMap]) (by decide)

end Program

end Cartridge
