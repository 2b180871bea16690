import Cartridge.Proofs.Save.Layout

/-!
When a plan becomes a schema, and which one. Limits are met one by one while fields are placed, and once more for
all slots together; the second check makes the first one void, so that a plan can be built if and only if its names
differ, its arrays have lengths, and its slots fit the memory. Then every byte of a slot belongs to one part of it.
-/
namespace Cartridge.Save

namespace Declaration

def size (d : Declaration) : Nat := d.length.getD 1 * d.type.size

def total : List Declaration → Nat
  | [] => 0
  | d :: ds => d.size + total ds

def IsSized (d : Declaration) : Prop := ∀ n, d.length = some n → 1 ≤ n ∧ n ≤ 255

def placed (d : Declaration) (offset : Nat) : Field :=
  ⟨d.name, d.type, .ofNat offset, .ofNat d.size, d.length.map .ofNat, d.default⟩

end Declaration

namespace Plan

variable {done out : List Field} {offset : Nat} {d : Declaration} {ds rest : List Declaration}

theorem place_cons_eq_next (hnew : ∀ g ∈ done, g.name ≠ d.name) (hsized : d.IsSized) :
    place done offset (d :: rest) = place.next done offset d rest (d.length.map .ofNat) d.size := by
  obtain ⟨name,type,length,default⟩ := d
  rw [place, if_neg (by simpa using hnew)]
  cases length with
  | none => simp [Declaration.size]
  | some n =>
    have hrange : 1 ≤ n ∧ n ≤ 255 := hsized n rfl
    simp [Declaration.size, hrange, Nat.mul_comm]

theorem of_place_cons (h : place done offset (d :: rest) = .ok out) :
    (∀ g ∈ done, g.name ≠ d.name) ∧ d.IsSized := by
  rw [place] at h
  split_ifs at h with hdone
  refine ⟨by simpa using hdone,fun n hn => ?_⟩
  simp only [hn] at h
  split_ifs at h with hrange
  exact hrange

/-- What placing a declaration in front of others takes. -/
theorem exists_place_cons_iff :
    (∃ out, place done offset (d :: rest) = .ok out) ↔
      (∀ g ∈ done, g.name ≠ d.name) ∧ d.IsSized ∧ offset + d.size ≤ maxOffset ∧
        ∃ out, place (done ++ [d.placed offset]) (offset + d.size) rest = .ok out := by
  constructor
  · rintro ⟨out,h⟩
    obtain ⟨hnew,hsized⟩ := of_place_cons h
    rw [place_cons_eq_next hnew hsized, place.next] at h
    split_ifs at h with hfits
    exact ⟨hnew,hsized,Nat.le_of_not_lt hfits,out,h⟩
  · rintro ⟨hnew,hsized,hfits,out,h⟩
    refine ⟨out,?_⟩
    rw [place_cons_eq_next hnew hsized, place.next, if_neg (Nat.not_lt.mpr hfits)]
    exact h

/-- Declarations can be placed if their names are new and different, arrays have lengths, and all end within 16
bits. -/
theorem exists_place_iff (hoffset : offset ≤ maxOffset) :
    (∃ out, place done offset ds = .ok out) ↔
      (∀ d ∈ ds, ∀ g ∈ done, g.name ≠ d.name) ∧ (ds.map Declaration.name).Nodup ∧
        (∀ d ∈ ds, d.IsSized) ∧ offset + Declaration.total ds ≤ maxOffset := by
  induction ds generalizing done offset with
  | nil => simpa [place, Declaration.total] using hoffset
  | cons d ds ih =>
    have htotal : offset + Declaration.total (d :: ds) = offset + d.size + Declaration.total ds := by
      rw [Declaration.total, Nat.add_assoc]
    rw [exists_place_cons_iff, htotal]
    by_cases hfits : offset + d.size ≤ maxOffset
    · have hname : (d.placed offset).name = d.name := rfl
      rw [ih hfits]
      simp only [List.forall_mem_cons, List.forall_mem_append, List.map_cons, List.nodup_cons, List.mem_map,
        not_exists, not_and, hname]
      grind
    · refine iff_of_false (fun h => hfits h.2.2.1) fun h => ?_
      have hend := h.2.2.2
      omega

end Plan

namespace Field

def elements (f : Field) : List (List Nat) :=
  (List.range f.length).map fun k => List.range' (f.position k) f.type.size

theorem flatten_elements (f : Field) :
    f.elements.flatten = List.range' f.offset.toNat (f.length * f.type.size) := by
  have hfirst (n : Nat) : ((List.range n).map fun k => List.range' (f.position k) f.type.size).flatten =
      List.range' f.offset.toNat (n * f.type.size) := by
    induction n with
    | zero => simp
    | succ n ih =>
      rw [List.range_succ, List.map_append, List.flatten_append, ih, Nat.succ_mul, ← List.range'_append_1]
      simp [position]
  exact hfirst f.length

end Field

namespace Packed

variable {offset : Nat} {fs : List Field} {f g : Field}

theorem size_eq (h : Packed offset fs) (hf : f ∈ fs) : f.size.toNat = f.length * f.type.size := by
  induction fs generalizing offset with
  | nil => cases hf
  | cons x fs ih =>
    obtain ⟨hoffset,hlimit,hrest⟩ := h
    rcases List.mem_cons.mp hf with rfl | hfs
    · rw [Field.limit, Field.position] at hlimit
      omega
    · exact ih hrest hfs

theorem total_eq_declared (h : Packed offset fs) :
    Field.total fs = Declaration.total (fs.map Field.declaration) := by
  induction fs generalizing offset with
  | nil => rfl
  | cons f fs ih =>
    rw [Field.total, h.size_eq List.mem_cons_self, ih h.2.2]
    rfl

/-- Each field begins where the one before it ends. -/
theorem next_eq (h : Packed offset fs) {i : Nat} (hf : fs[i]? = some f) (hg : fs[i + 1]? = some g) :
    g.offset.toNat = f.offset.toNat + f.size.toNat := by
  induction fs generalizing offset i with
  | nil => cases hf
  | cons x fs ih =>
    obtain ⟨hoffset,hlimit,hrest⟩ := h
    cases i with
    | succ i => exact ih hrest hf hg
    | zero =>
      obtain rfl := Option.some.inj hf
      cases fs with
      | nil => cases hg
      | cons y fs =>
        obtain rfl := Option.some.inj hg
        rw [hrest.1, hoffset, hlimit]

/-- The last field ends where all do. -/
theorem last_eq (h : Packed offset fs) (hf : fs.getLast? = some f) :
    f.offset.toNat + f.size.toNat = offset + Field.total fs := by
  induction fs generalizing offset with
  | nil => cases hf
  | cons x fs ih =>
    obtain ⟨hoffset,hlimit,hrest⟩ := h
    rw [Field.total]
    cases fs with
    | nil =>
      obtain rfl : f = x := (Option.some.inj hf).symm
      rw [hoffset]
      rfl
    | cons y fs =>
      rw [ih hrest hf, ← hlimit, Nat.add_assoc]

/-- The elements of packed fields take every byte once, in order. -/
theorem flatten_elements (h : Packed offset fs) :
    (fs.flatMap Field.elements).flatten = List.range' offset (Field.total fs) := by
  induction fs generalizing offset with
  | nil => rfl
  | cons f fs ih =>
    have hsize := h.size_eq List.mem_cons_self
    obtain ⟨hoffset,hlimit,hrest⟩ := h
    rw [List.flatMap_cons, List.flatten_append, ih hrest, Field.flatten_elements, ← hsize, hoffset, ← hlimit,
      Field.total, List.range'_append_1]

end Packed

/-- The bytes of each part of a slot: the header, the elements of all fields, and the checksum. -/
def Schema.parts (s : Schema) : List (List Nat) :=
  [List.range' 0 s.headerSize] ++ s.fields.flatMap Field.elements ++
    [List.range' s.checksumOffset s.checksum.size]

/-- The parts take every byte of a slot once, in order. -/
theorem Schema.IsPacked.flatten_parts {s : Schema} (h : s.IsPacked) :
    s.parts.flatten = List.range s.slotSize := by
  have hfields : List.range' 0 s.headerSize ++ List.range' s.headerSize (Field.total s.fields) =
      List.range' 0 s.checksumOffset := by
    have happend := List.range'_append_1 (s := 0) (m := s.headerSize) (n := Field.total s.fields)
    rwa [Nat.zero_add] at happend
  rw [parts, List.flatten_append, List.flatten_append, h.packed.flatten_elements, List.flatten_singleton,
    List.flatten_singleton, hfields, List.range_eq_range', slotSize]
  have happend := List.range'_append_1 (s := 0) (m := s.checksumOffset) (n := s.checksum.size)
  rwa [Nat.zero_add] at happend

theorem Schema.headerSizeOf_le (magic : Option Magic) : headerSizeOf magic ≤ maxOffset := by
  rw [headerSizeOf]
  split <;> decide

namespace Plan

/-- A schema is what a plan declares: its fields, in order, stand one behind the other between the header and the
checksum, and the parts of a slot take every byte of it once. -/
structure LaidOut (p : Plan) (s : Schema) : Prop where
  declarations : s.fields.map Field.declaration = p.declarations
  settings : s.slots = p.slots ∧ s.checksum = p.checksum ∧ s.magic = p.magic ∧ s.version = p.version
  sizes : ∀ f ∈ s.fields, f.size.toNat = f.length * f.type.size
  first : ∀ f, s.fields.head? = some f → f.offset.toNat = s.headerSize
  next : ∀ (i : Nat) f g, s.fields[i]? = some f → s.fields[i + 1]? = some g →
    g.offset.toNat = f.offset.toNat + f.size.toNat
  last : ∀ f, s.fields.getLast? = some f → s.checksumOffset = f.offset.toNat + f.size.toNat
  none : s.fields = [] → s.checksumOffset = s.headerSize
  slotSize : s.slotSize = s.checksumOffset + s.checksum.size
  parts : s.parts.flatten = List.range s.slotSize

variable {p : Plan} {s : Schema}

theorem laidOut_of_build (h : p.build = .ok s) : p.LaidOut s := by
  obtain ⟨hpacked,hdecls⟩ := packed_of_build h
  obtain ⟨-,fields,-,rfl,-⟩ := build_eq_ok_iff.mp h
  exact
    { declarations := hdecls
      settings := ⟨rfl,rfl,rfl,rfl⟩
      sizes := fun f hf => hpacked.packed.size_eq hf
      first := by
        rintro f hf
        obtain ⟨rest,rfl⟩ := List.head?_eq_some_iff.mp hf
        exact hpacked.packed.1
      next := fun i f g hf hg => hpacked.packed.next_eq hf hg
      last := fun f hf => (hpacked.packed.last_eq hf).symm
      none := by
        rintro rfl
        rfl
      slotSize := rfl
      parts := hpacked.flatten_parts }

def slotSize (p : Plan) : Nat :=
  Schema.headerSizeOf p.magic + Declaration.total p.declarations + p.checksum.size

theorem slotSize_of_place {fields : List Field}
    (h : place [] (Schema.headerSizeOf p.magic) p.declarations = .ok fields) :
    Schema.slotSize ⟨fields,p.slots,p.checksum,p.magic,p.version⟩ = p.slotSize := by
  obtain ⟨-,_,rfl,hdecls,hpacked⟩ := place_packed (by simp) h
  rw [Schema.slotSize, Schema.checksumOffset]
  dsimp only [List.nil_append]
  rw [hpacked.total_eq_declared, hdecls]
  rfl

theorem exists_build_iff :
    (∃ s, p.build = .ok s) ↔
      p.slots ≠ 0 ∧ (p.declarations.map Declaration.name).Nodup ∧ (∀ d ∈ p.declarations, d.IsSized) ∧
        p.slotSize * p.slots.toNat ≤ saveMemory := by
  have hplace : (∃ fields, place [] (Schema.headerSizeOf p.magic) p.declarations = .ok fields) ↔ _ :=
    exists_place_iff (Schema.headerSizeOf_le p.magic)
  constructor
  · rintro ⟨s,h⟩
    obtain ⟨hslots,fields,hfields,rfl,hmemory⟩ := build_eq_ok_iff.mp h
    obtain ⟨-,hnames,hsized,-⟩ := hplace.mp ⟨fields,hfields⟩
    rw [slotSize_of_place hfields] at hmemory
    exact ⟨hslots,hnames,hsized,hmemory⟩
  · rintro ⟨hslots,hnames,hsized,hmemory⟩
    have hpos : 0 < p.slots.toNat := Nat.pos_of_ne_zero fun hzero => hslots (UInt8.toNat_inj.mp hzero)
    have hslot : p.slotSize ≤ saveMemory := Nat.le_trans (Nat.le_mul_of_pos_right _ hpos) hmemory
    have hfits : Schema.headerSizeOf p.magic + Declaration.total p.declarations ≤ maxOffset :=
      Nat.le_trans (Nat.le_add_right _ p.checksum.size) (Nat.le_trans hslot (by decide))
    obtain ⟨fields,hfields⟩ := hplace.mpr ⟨by simp,hnames,hsized,hfits⟩
    refine ⟨_,build_eq_ok_iff.mpr ⟨hslots,fields,hfields,rfl,?_⟩⟩
    rwa [slotSize_of_place hfields]

/-- A plan can be built if and only if it has a slot, its names differ, its arrays have between 1 and 255 values,
and all slots together fit the memory. The schema holds what was declared, packed without gap or overlap. -/
theorem build_lays_out_fields (p : Plan) :
    ((∃ s, p.build = .ok s) ↔
      1 ≤ p.slots.toNat ∧ (p.declarations.map Declaration.name).Nodup ∧
        (∀ d ∈ p.declarations, ∀ n, d.length = some n → 1 ≤ n ∧ n ≤ 255) ∧
        (Schema.headerSizeOf p.magic + Declaration.total p.declarations + p.checksum.size) *
          p.slots.toNat ≤ 8192) ∧
      ∀ s, p.build = .ok s → p.LaidOut s := by
  refine ⟨?_,fun s h => laidOut_of_build h⟩
  have hslots : p.slots ≠ 0 ↔ 1 ≤ p.slots.toNat := by
    rw [Nat.one_le_iff_ne_zero, ne_eq, ne_eq, ← UInt8.toNat_inj]
    rfl
  rw [exists_build_iff, hslots]
  rfl

def records : Plan where
  declarations := [⟨"lives", .u8, none, 3⟩,⟨"best", .u16, some 3, -1⟩,⟨"keys", .bool, some 8, 0⟩,⟨"gold", .i16, none, 0⟩]
  slots := 2
  checksum := .sum16
  magic := some #v[83, 65, 86, 69]
  version := 3

theorem records_are_laid_out : records.slotSize = 24 ∧ ∃ s, records.build = .ok s ∧ records.LaidOut s := by
  obtain ⟨hbuild,hlaid⟩ := build_lays_out_fields records
  obtain ⟨s,hs⟩ := hbuild.mpr ⟨by decide,by decide,by simp [records],by decide⟩
  exact ⟨rfl,s,hs,hlaid s hs⟩

end Plan

end Cartridge.Save
