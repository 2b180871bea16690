import Cartridge.Proofs.Save.Build

/-!
When checking a schema faults: its fields end within 16 bits, and the checksum behind them does not.
-/
namespace Cartridge.Save

namespace Field

def extent : List Field → Nat
  | [] => 0
  | f :: rest => f.length * f.type.size + extent rest

theorem extent_eq_total (fs : List Field) : extent fs = Declaration.total (fs.map declaration) := by
  induction fs with
  | nil => rfl
  | cons f fs ih =>
    rw [extent, ih]
    rfl

theorem isSized_declaration {f : Field} : f.declaration.IsSized ↔ 0 < f.length := by
  obtain ⟨name,type,offset,size,arrayLength,default⟩ := f
  cases arrayLength with
  | none => exact iff_of_true (by simp [Declaration.IsSized, declaration]) Nat.one_pos
  | some n =>
    have hmost : n.toNat < 256 := n.toNat_lt
    constructor
    · exact fun h => (h n.toNat rfl).1
    · rintro hpos _ ⟨⟩
      exact ⟨hpos,Nat.le_of_lt_succ hmost⟩

end Field

namespace Schema

/-- The fields of a schema can be placed, and with the checksum behind them a slot ends past 16
bits. -/
structure ChecksumOverruns (s : Schema) : Prop where
  slots : s.slots ≠ 0
  names : (s.fields.map Field.name).Nodup
  lengths : ∀ f ∈ s.fields, 0 < f.length
  fieldsFit : s.headerSize + Field.extent s.fields ≤ maxOffset
  overrun : maxOffset < s.headerSize + Field.extent s.fields + s.checksum.size

/-- Wherever the fields are placed, a slot is as long as their elements make it. -/
theorem slotSize_of_place {s : Schema} {fields : List Field}
    (h : Plan.place [] s.headerSize (s.fields.map Field.declaration) = .ok fields) :
    { s with fields }.slotSize = s.headerSize + Field.extent s.fields + s.checksum.size := by
  rw [Field.extent_eq_total]
  exact Plan.slotSize_of_place (p := s.plan) h

/-- Fields can be placed if their names differ, none is empty, and all end within 16 bits. -/
theorem exists_place_iff (s : Schema) :
    (∃ fields, Plan.place [] s.headerSize (s.fields.map Field.declaration) = .ok fields) ↔
      (s.fields.map Field.name).Nodup ∧ (∀ f ∈ s.fields, 0 < f.length) ∧
        s.headerSize + Field.extent s.fields ≤ maxOffset := by
  have hnames : (s.fields.map Field.declaration).map Declaration.name = s.fields.map Field.name := by
    rw [List.map_map]
    rfl
  have hheader : s.headerSize ≤ maxOffset := headerSizeOf_le s.magic
  rw [Plan.exists_place_iff hheader, hnames, Field.extent_eq_total]
  simp only [List.forall_mem_map, Field.isSized_declaration, List.not_mem_nil, false_implies,
    implies_true, true_and]

/-- Comparing places never faults, so only building the schema again does. -/
theorem validate_fault_iff_build (s : Schema) :
    s.validate = .error .fault ↔ s.plan.build = .error .fault := by
  rw [validate]
  cases s.plan.build with
  | error e => simp [bind, Except.bind]
  | ok rebuilt =>
    refine iff_of_false ?_ nofun
    change Halt.ofExcept (checkPlaces s.fields rebuilt.fields) ≠ .error .fault
    cases checkPlaces s.fields rebuilt.fields <;> exact nofun

theorem build_of_place {s : Schema} {fields : List Field} (hslots : s.slots ≠ 0)
    (h : Plan.place [] s.headerSize (s.fields.map Field.declaration) = .ok fields) :
    s.plan.build = .error .fault ↔ maxOffset < { s with fields }.slotSize := by
  have hplace : Plan.place [] (headerSizeOf s.plan.magic) s.plan.declarations = .ok fields := h
  rw [Plan.build, if_neg (show s.plan.slots ≠ 0 from hslots), hplace]
  by_cases hlong : maxOffset < { s with fields }.slotSize
  · have hfits : { s with fields }.fits = false := by simpa [fits] using hlong
    exact iff_of_true (if_pos (by rw [Bool.not_eq_true']; exact hfits)) hlong
  · have hfits : { s with fields }.fits = true := by simpa [fits] using hlong
    refine iff_of_false ?_ hlong
    change (if _ then _ else if _ then _ else _) ≠ _
    rw [if_neg (by rw [Bool.not_eq_true', Bool.not_eq_false]; exact hfits)]
    split <;> simp

/-- Checking a schema faults if and only if its checksum alone pushes a slot past 16 bits. -/
theorem validate_fault_iff (s : Schema) :
    s.validate = .error .fault ↔ s.ChecksumOverruns := by
  rw [validate_fault_iff_build]
  by_cases hslots : s.slots = 0
  · rw [Plan.build, if_pos (show s.plan.slots = 0 from hslots)]
    exact iff_of_false (by simp) fun h => h.slots hslots
  cases hplace : Plan.place [] s.headerSize (s.fields.map Field.declaration) with
  | error e =>
    have hbuild : s.plan.build = .error (.error e) := by
      have h : Plan.place [] (headerSizeOf s.plan.magic) s.plan.declarations = .error e := hplace
      rw [Plan.build, if_neg (show s.plan.slots ≠ 0 from hslots), h]
      rfl
    rw [hbuild]
    refine iff_of_false (by simp) fun h => ?_
    obtain ⟨fields,hfields⟩ := s.exists_place_iff.mpr ⟨h.names,h.lengths,h.fieldsFit⟩
    rw [hplace] at hfields
    cases hfields
  | ok fields =>
    obtain ⟨hnames,hlengths,hfit⟩ := s.exists_place_iff.mp ⟨fields,hplace⟩
    rw [build_of_place hslots hplace, slotSize_of_place hplace]
    exact ⟨fun h => ⟨hslots,hnames,hlengths,hfit,h⟩,fun h => h.overrun⟩

end Schema

end Cartridge.Save
