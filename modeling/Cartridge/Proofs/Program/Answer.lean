import Cartridge.Proofs.Game.Json
import Cartridge.Proofs.Program.Length
import Cartridge.Proofs.Save.Overrun

/-!
From a text to an answer. Reading a text faults where the checksum of its save data pushes a slot past
16 bits; generating a file for a game that was read faults where a grid holds too few bits, a cutscene
has too many frames, or the file has too many lines. Nothing else keeps a text from an answer.
-/
namespace Cartridge

namespace Game

open Json

/-- The game a text describes, whatever the layout of its save data. -/
def document? (text : String) : Option Game := (parse? text).bind (ofJson? depthLimit)

def checkSave (g : Game) : Except (Halt Error) Unit := g.save.elim (.ok ()) Save.Schema.validate

theorem checkSave_fault_iff (g : Game) :
    g.checkSave = .error .fault ↔ ∃ s ∈ g.save, s.ChecksumOverruns := by
  rw [checkSave]
  cases g.save with
  | none => simp
  | some s => simp [s.validate_fault_iff]

/-- Reading a text ends as the check of its save data does. -/
theorem parse_eq (text : String) :
    parse text = match document? text with
      | none => .error (.error (.invalid .document))
      | some g => g.checkSave.map fun _ => g := by
  rw [parse, document?]
  cases parse? text with
  | none => rfl
  | some j =>
    change load j = match ofJson? depthLimit j with | none => _ | some g => _
    rw [load, decode]
    cases ofJson? depthLimit j with
    | none => rfl
    | some g =>
      change _ = g.checkSave.map fun _ => g
      rw [checkSave]
      cases hs : g.save with
      | none => simp [hs, bind, Except.bind, pure, Except.pure, Except.map]
      | some s => cases hcheck : s.validate <;> simp [hs, hcheck, bind, Except.bind, pure,
          Except.pure, Except.map]

/-- Reading a text faults if and only if the checksum of its save data pushes a slot past 16 bits. -/
theorem parse_fault_iff (text : String) :
    parse text = .error .fault ↔
      ∃ g, document? text = some g ∧ ∃ s ∈ g.save, s.ChecksumOverruns := by
  rw [parse_eq]
  cases document? text with
  | none => simp
  | some g =>
    have hcheck := g.checkSave_fault_iff
    cases hresult : g.checkSave <;> simp_all [Except.map]

/-- The save data of a game that was read never faults when it is checked again. -/
theorem not_checksumOverruns_of_parse {text : String} {g : Game} (h : parse text = .ok g)
    {s : Save.Schema} (hs : s ∈ g.save) : ¬s.ChecksumOverruns := by
  intro hover
  have hfault : g.checkSave = .error .fault := g.checkSave_fault_iff.mpr ⟨s,hs,hover⟩
  rw [parse_eq] at h
  cases hdoc : document? text with
  | none => simp [hdoc] at h
  | some found =>
    simp only [hdoc] at h
    cases hcheck : found.checkSave with
    | error e => simp [hcheck, Except.map] at h
    | ok _ =>
      rw [hcheck] at h
      cases h
      rw [hfault] at hcheck
      cases hcheck

theorem document?_print {g : Game} (hextensions : g.extensions = [])
    (hdepth : g.toJson.depth ≤ depthLimit) : document? g.print = some g := by
  have hspells : Spells ofJson? g g.toJson := by
    refine spells ?_ ?_
    · simp [hextensions, Value.Every, Value.EveryMember, Value.Proper]
    · simp [hextensions, Value.Every, Value.EveryMember, Value.Exact]
  rw [document?, print, parse?_pretty hspells.plain, Option.bind_some, hspells.read hdepth]

end Game

namespace Program

/-- Every text is read or refused, unless the checksum of its save data pushes a slot past 16 bits.
For every game that is read and all options there is a file or an error, unless a grid holds too few
bits, or a cutscene has more frames or the file more lines than 32 bits count. -/
theorem answer_unless_out_of_range (text : String) :
    (Game.parse text = .error .fault ↔
      ∃ g, Game.document? text = some g ∧ ∃ s ∈ g.save, s.ChecksumOverruns) ∧
    ∀ g o, Game.parse text = .ok g →
      (generate g o = .error .fault ↔
        (∃ m ∈ g.maps, 8 * m.grid.walkable.length < m.grid.tileCount) ∨
          (∃ c ∈ g.cutscenes, Cutscene.Emit.frameLimit ≤ c.duration) ∨
          Code.Page.maxLines.toNat < fileLines g o.lower) := by
  refine ⟨Game.parse_fault_iff text,fun g o hparse => ?_⟩
  rw [generate_fault_iff]
  constructor
  · rintro (⟨m,hm,hbits⟩ | ⟨c,hc,hlong⟩ | ⟨s,hs,hfault⟩ | hlines)
    · exact .inl ⟨m,hm,hbits⟩
    · exact .inr (.inl ⟨c,hc,hlong⟩)
    · exact absurd (s.validate_fault_iff.mp hfault) (Game.not_checksumOverruns_of_parse hparse hs)
    · exact .inr (.inr hlines)
  · rintro (⟨m,hm,hbits⟩ | ⟨c,hc,hlong⟩ | hlines)
    · exact .grid m hm hbits
    · exact .timeline c hc hlong
    · exact .lines hlines

def meadow : Game :=
  { name := "meadow", scenes := [{ name := "field" }]
    maps := [⟨"grass", ⟨2, 1, [3], none⟩, {}⟩]
    save := some ⟨[⟨"hp", .u8, 1, 1, none, 3⟩], 2, .crc8, none, 1⟩
    cutscenes := [⟨"intro", [.wait 3, .transition .flash 2]⟩] }

theorem fileLines_meadow : fileLines meadow {} ≤ Code.Page.maxLines.toNat := by
  have hsave : Code.height (content ⟨meadow, {}⟩ .saveData).items ≤ 1000000 := by
    refine Nat.le_trans (Code.Emission.height_bind_le _ _) ?_
    rw [Code.Emission.height_ofHalt]
    decide +kernel
  have hcontent : ∀ place ∈ Code.Section.order, place ≠ .saveData →
      Code.height (content ⟨meadow, {}⟩ place).items ≤ 1000000 := by decide +kernel
  refine fileLines_le_maxLines (by decide +kernel) (by decide +kernel) fun place hmem => ?_
  by_cases hplace : place = .saveData
  · exact hplace ▸ hsave
  · exact hcontent place hmem hplace

theorem meadow_has_answer :
    Game.parse meadow.print = .ok meadow ∧ generate meadow {} ≠ .error .fault := by
  have hparse : Game.parse meadow.print = .ok meadow := by
    have hsave : meadow.checkSave = .ok () := by cbv
    rw [Game.parse_eq, Game.document?_print rfl (by decide)]
    simp [hsave, Except.map]
  refine ⟨hparse,fun hfault => ?_⟩
  rcases ((answer_unless_out_of_range meadow.print).2 meadow {} hparse).mp hfault with h | h | h
  · revert h
    simp only [meadow]
    decide
  · revert h
    simp only [meadow]
    decide
  · exact absurd h (Nat.not_lt.mpr fileLines_meadow)

def crowdedSave : Game :=
  { name := "hoard"
    save := some ⟨(List.range 129).map fun n =>
      ⟨.ofList (.replicate n 'x'), .u16, 0, 0, some (if n = 0 then 127 else 255), 0⟩, 1, .crc8,
        none, 1⟩ }

theorem texts_without_answer :
    Game.parse crowdedSave.print = .error .fault ∧
      Game.parse emptyMap.print = .ok emptyMap ∧ generate emptyMap {} = .error .fault := by
  refine ⟨?_,?_,(generate_fault_iff emptyMap {}).mpr (emptyMap_overruns _)⟩
  · have hnames : ((List.range 129).map fun n => String.ofList (.replicate n 'x')).Nodup := by
      refine List.nodup_range.map fun m n h => ?_
      simpa using congrArg String.length h
    rw [Game.parse_fault_iff]
    refine ⟨crowdedSave,Game.document?_print rfl (by decide +kernel),_,rfl,by decide,?_,?_,?_,?_⟩
    · rw [List.map_map]
      exact hnames
    · decide +kernel
    · decide +kernel
    · decide +kernel
  · rw [Game.parse_eq, Game.document?_print rfl (by decide)]
    rfl

end Program

end Cartridge
