import Cartridge.Proofs.Program.Inert
import Cartridge.Proofs.Program.Fault

/-!
How many lines a file has. If all of its code is emitted, it ends with the main function, behind which no
place is recorded, so that just the lines of its parts have to be counted.
-/
namespace Cartridge.Program

open Code Code.Emission Lower

variable {g : Game} {o : Lower.Options}

def EndsFunction (m : Emission Unit) : Prop := ∃ front, m.items = front ++ [.endFunction]

theorem endsFunction_bind {m : Emission Unit} {f : Unit → Emission Unit} (hm : m.Ends)
    (hf : EndsFunction (f ())) : EndsFunction (m >>= f) := by
  obtain ⟨front,hfront⟩ := hf
  refine ⟨m.items ++ front,?_⟩
  rw [bind_ok hm, List.append_assoc, ← hfront]

theorem endsFunction_file (h : (Generator.file { game := g, options := { lower := o } }).Ends) :
    EndsFunction (Generator.file { game := g, options := { lower := o } }) := by
  have horder : Section.order = Section.order.dropLast ++ [.entryPoint] := rfl
  obtain ⟨hpreamble,hrest⟩ := ends_bind.mp h
  obtain ⟨hchecks,hsections⟩ := ends_bind.mp hrest
  refine endsFunction_bind hpreamble (endsFunction_bind hchecks ?_)
  rw [horder, each_append, ends_bind] at hsections
  rw [horder, each_append]
  refine endsFunction_bind hsections.1 ?_
  have hmain : EndsFunction (function Scene.Emit.main do
      verbatim (Scene.Emit.setUp g)
      braced "while (1)" (Scene.Emit.perFrame g)) := ⟨_,rfl⟩
  have hlast : EndsFunction (Generator.sectionCode { game := g, options := { lower := o } } .entryPoint) := by
    rw [Generator.sectionCode_eq rfl]
    exact endsFunction_bind (by simp) (endsFunction_bind (by simp) hmain)
  rwa [each_singleton]

/-- No place is behind the last line of a file. -/
theorem fileLines_eq (h : (Generator.file { game := g, options := { lower := o } }).Ends) :
    fileLines g o = height (Generator.file { game := g, options := { lower := o } }).items := by
  obtain ⟨front,hfront⟩ := endsFunction_file h
  rw [fileLines, hfront, linesNeeded_endFunction]

theorem height_preamble (s : Scope) (prototypes : List String) :
    height (Preamble.emit s prototypes).items ≤ prototypes.length + 15 := by
  cases prototypes with
  | nil => simp [Preamble.emit, Preamble.boundsCheck, Preamble.includes]
  | cons t ts =>
    simp [Preamble.emit, Preamble.boundsCheck, Preamble.includes]
    omega

/-- Checks write lines only where something is wrong. -/
theorem height_checks_of_clean {s : Scope} (h : (Check.emit s).Clean) : height (Check.emit s).items = 0 := by
  have hevery : (Check.emit s).Every fun i => i.isProblem = false → i.height = 0 :=
    every_checks (fun _ _ => rfl) nofun
  exact height_eq_zero fun i hi => hevery i hi (h.2 i hi)

/-- If no part of a file has more than a million lines, all can be counted. -/
theorem fileLines_le_maxLines
    (hpreamble : height (Preamble.emit ⟨g, o⟩ (prototypes ⟨g, o⟩)).items ≤ 1000000)
    (hchecks : height (Check.emit ⟨g, o⟩).items ≤ 1000000)
    (hcontent : ∀ place ∈ Section.order, height (content ⟨g, o⟩ place).items ≤ 1000000) :
    fileLines g o ≤ Page.maxLines.toNat := by
  have hsections :
      height (each (Generator.sectionCode { game := g, options := { lower := o } }) Section.order).items ≤
        Section.order.length * 1000000 := by
    refine height_each_le fun place hplace => ?_
    have henter : height (enter place).items = 0 := rfl
    rw [Generator.sectionCode_eq rfl, height_bind (by simp), henter, Nat.zero_add]
    exact hcontent place hplace
  have hprototypes : Generator.prototypes { game := g, options := { lower := o } } = prototypes ⟨g, o⟩ := by
    simp [Generator.prototypes, Generator.emitter?, Generator.scope]
  have hfile : height (Generator.file { game := g, options := { lower := o } }).items ≤
      1000000 + (1000000 + Section.order.length * 1000000) := by
    rw [Generator.file, hprototypes]
    refine Nat.le_trans (height_bind_le _ _) (Nat.add_le_add hpreamble ?_)
    exact Nat.le_trans (height_bind_le _ _) (Nat.add_le_add hchecks hsections)
  have horder : Section.order.length = 26 := rfl
  have hmax : Page.maxLines.toNat = 4294967295 := rfl
  have hplace := linesNeeded_le o.sourceMap (Generator.file { game := g, options := { lower := o } }).items
  rw [fileLines]
  omega

end Cartridge.Program
