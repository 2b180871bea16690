import Mathlib.Data.List.Nodup
import Mathlib.Tactic.Common
import Cartridge.Save.Schema

/-!
The layout of a valid schema: fields of different names stand one behind the other between the header and
the checksum, each as long as its elements, so that no two elements share a byte.
-/
namespace Cartridge.Save

namespace Field

def declaration (f : Field) : Declaration :=
  ⟨f.name, f.type, f.arrayLength.map UInt8.toNat, f.default⟩

def position (f : Field) (k : Nat) : Nat := f.offset.toNat + k * f.type.size

def limit (f : Field) : Nat := f.position f.length

theorem size_le_position {f : Field} {k l : Nat} (h : k < l) :
    f.position k + f.type.size ≤ f.position l := by
  have hle : (k + 1) * f.type.size ≤ l * f.type.size := Nat.mul_le_mul_right _ h
  rw [Nat.succ_mul] at hle
  simp only [position]
  omega

theorem eq_of_declaration {f g : Field} (h : f.declaration = g.declaration)
    (hoffset : f.offset = g.offset) (hsize : f.size = g.size) : f = g := by
  obtain ⟨name,type,offset,size,arrayLength,default⟩ := f
  simp only [declaration, Declaration.mk.injEq] at h
  obtain ⟨rfl,rfl,hlength,rfl⟩ := h
  obtain rfl : arrayLength = g.arrayLength :=
    Option.map_injective (fun _ _ he => UInt8.toNat_inj.mp he) hlength
  cases hoffset
  cases hsize
  rfl

end Field

/-- Fields stand one behind the other from an offset on, each as long as its elements. -/
def Packed (offset : Nat) : List Field → Prop
  | [] => True
  | f :: rest => f.offset.toNat = offset ∧ offset + f.size.toNat = f.limit ∧ Packed f.limit rest

namespace Packed

variable {offset : Nat} {fs : List Field}

/-- Every field stands between the first offset and the sum of all sizes. -/
theorem bounds (h : Packed offset fs) {f : Field} (hf : f ∈ fs) :
    offset ≤ f.offset.toNat ∧ f.limit ≤ offset + Field.total fs := by
  induction fs generalizing offset with
  | nil => cases hf
  | cons g fs ih =>
    obtain ⟨hoffset,hlimit,hrest⟩ := h
    rw [Field.total]
    rcases List.mem_cons.mp hf with rfl | hf
    · omega
    · have hle := ih hrest hf
      omega

/-- Of two fields one ends before the other begins. -/
theorem apart (h : Packed offset fs) {f g : Field} (hf : f ∈ fs) (hg : g ∈ fs) (hne : f ≠ g) :
    f.limit ≤ g.offset.toNat ∨ g.limit ≤ f.offset.toNat := by
  induction fs generalizing offset with
  | nil => cases hf
  | cons x fs ih =>
    obtain ⟨-,-,hrest⟩ := h
    rcases List.mem_cons.mp hf with rfl | hfs
    · rcases List.mem_cons.mp hg with rfl | hgs
      · exact absurd rfl hne
      · exact .inl (hrest.bounds hgs).1
    · rcases List.mem_cons.mp hg with rfl | hgs
      · exact .inr (hrest.bounds hfs).1
      · exact ih hrest hfs hgs

end Packed

namespace Plan

def Places (done : List Field) (offset : Nat) (d : Declaration) (rest : List Declaration)
    (out : List Field) : Prop :=
  ∃ f : Field, f.declaration = d ∧ (∀ g ∈ done, g.name ≠ f.name) ∧ f.offset.toNat = offset ∧
    offset + f.size.toNat = f.limit ∧ place (done ++ [f]) f.limit rest = .ok out

private theorem places_of_next {done : List Field} {offset : Nat} {d : Declaration}
    {rest : List Declaration} {length : Option UInt8} {size : Nat} {out : List Field}
    (h : place.next done offset d rest length size = .ok out)
    (hnew : ∀ g ∈ done, g.name ≠ d.name) (hlength : length.map UInt8.toNat = d.length)
    (hsize : size = (d.length.getD 1) * d.type.size) : Places done offset d rest out := by
  rw [place.next] at h
  split_ifs at h with hfits
  have hmax : ¬65535 < offset + size := hfits
  let f : Field := ⟨d.name, d.type, .ofNat offset, .ofNat size, length, d.default⟩
  have hoffset : f.offset.toNat = offset := by
    rw [UInt16.toNat_ofNat']
    omega
  have hbytes : f.size.toNat = size := by
    rw [UInt16.toNat_ofNat']
    omega
  have hlimit : f.limit = offset + size := by
    rw [Field.limit, Field.position, hoffset, hsize, ← hlength]
    rfl
  refine ⟨f,?_,hnew,hoffset,by rw [hbytes, hlimit],by rw [hlimit]; exact h⟩
  rw [Field.declaration, hlength]

/-- What placing a declaration in front of others does. -/
theorem place_cons {done : List Field} {offset : Nat} {d : Declaration} {rest : List Declaration}
    {out : List Field} (h : place done offset (d :: rest) = .ok out) : Places done offset d rest out := by
  rw [place] at h
  split_ifs at h with hdone
  have hnew : ∀ g ∈ done, g.name ≠ d.name := by simpa using hdone
  cases hd : d.length with
  | none =>
    simp only [hd] at h
    exact places_of_next h hnew hd.symm (by simp [hd])
  | some n =>
    simp only [hd] at h
    split_ifs at h with hn
    refine places_of_next h hnew ?_ (by simp [hd, Nat.mul_comm])
    rw [hd, Option.map_some, UInt8.toNat_ofNat', Nat.mod_eq_of_lt (by omega)]

/-- Declarations are placed behind the fields already there, packed and under names of their own. -/
theorem place_packed {done : List Field} {offset : Nat} {ds : List Declaration} {out : List Field}
    (hdone : (done.map Field.name).Nodup) (h : place done offset ds = .ok out) :
    (out.map Field.name).Nodup ∧
      ∃ new, out = done ++ new ∧ new.map Field.declaration = ds ∧ Packed offset new := by
  induction ds generalizing done offset with
  | nil =>
    rw [place] at h
    cases h
    exact ⟨hdone,[],(List.append_nil _).symm,rfl,trivial⟩
  | cons d ds ih =>
    obtain ⟨f,hd,hnew,hoffset,hlimit,hrest⟩ := place_cons h
    have hnames : ((done ++ [f]).map Field.name).Nodup := by
      rw [List.map_append]
      refine List.nodup_append.mpr ⟨hdone,by simp,?_⟩
      simpa using hnew
    obtain ⟨hout,new,rfl,hdecls,hpacked⟩ := ih hnames hrest
    refine ⟨hout,f :: new,by simp,?_,hoffset,hlimit,hpacked⟩
    rw [List.map_cons, hd, hdecls]

/-- A plan is built if its fields can be placed and all slots fit the memory; then every offset fits 16 bits. -/
theorem build_eq_ok_iff {p : Plan} {s : Schema} :
    p.build = .ok s ↔ p.slots ≠ 0 ∧ ∃ fields,
      place [] (Schema.headerSizeOf p.magic) p.declarations = .ok fields ∧
        s = ⟨fields,p.slots,p.checksum,p.magic,p.version⟩ ∧ s.slotSize * s.slots.toNat ≤ saveMemory := by
  rw [build]
  split
  next hslots => exact iff_of_false (by simp) fun h => h.1 hslots
  next hslots =>
    have hpos : 0 < p.slots.toNat := Nat.pos_of_ne_zero fun hzero => hslots (UInt8.toNat_inj.mp hzero)
    rw [and_iff_right hslots]
    cases hplace : place [] (Schema.headerSizeOf p.magic) p.declarations with
    | error e => exact iff_of_false (by simp [Halt.ofExcept, bind, Except.bind]) (by simp)
    | ok fields =>
      simp only [Halt.ofExcept, bind, Except.bind, Except.ok.injEq, exists_eq_left']
      split_ifs with hfits hmemory
      · refine iff_of_false (by simp) ?_
        rintro ⟨rfl,hle⟩
        have hlong : maxOffset < Schema.slotSize ⟨fields,p.slots,p.checksum,p.magic,p.version⟩ := by
          simpa [Schema.fits] using hfits
        have hproduct := Nat.le_trans (Nat.le_mul_of_pos_right _ hpos) hle
        exact absurd (Nat.lt_of_lt_of_le hlong hproduct) (by decide)
      · refine iff_of_false (by simp) ?_
        rintro ⟨rfl,hle⟩
        exact absurd hle (Nat.not_le.mpr hmemory)
      · constructor
        · rintro ⟨⟩
          exact ⟨rfl,Nat.le_of_not_lt hmemory⟩
        · rintro ⟨rfl,-⟩
          rfl

end Plan

namespace Schema

/-- The fields stand packed behind the header, under names of their own. -/
structure IsPacked (s : Schema) : Prop where
  packed : Packed s.headerSize s.fields
  names : (s.fields.map Field.name).Nodup

end Schema

/-- The fields of a built schema are placed declarations. -/
theorem Plan.packed_of_build {p : Plan} {s : Schema} (h : p.build = .ok s) :
    s.IsPacked ∧ s.fields.map Field.declaration = p.declarations := by
  obtain ⟨-,fields,hplace,rfl,-⟩ := build_eq_ok_iff.mp h
  obtain ⟨hnames,new,hnew,hdecls,hpacked⟩ := place_packed (by simp) hplace
  obtain rfl : fields = new := hnew
  exact ⟨⟨hpacked,hnames⟩,hdecls⟩

namespace Schema

private theorem eq_of_checkPlaces {fs ps : List Field} (h : checkPlaces fs ps = .ok ())
    (hdecls : ps.map Field.declaration = fs.map Field.declaration) : ps = fs := by
  induction fs generalizing ps with
  | nil => exact List.map_eq_nil_iff.mp hdecls
  | cons f fs ih =>
    cases ps with
    | nil => cases hdecls
    | cons p ps =>
      rw [List.map_cons, List.map_cons, List.cons.injEq] at hdecls
      rw [checkPlaces] at h
      split_ifs at h with hplace
      rw [Field.eq_of_declaration hdecls.1 hplace.1.symm hplace.2.symm, ih h hdecls.2]

/-- A valid schema is what building its own declarations gives. -/
theorem build_plan_of_validate {s : Schema} (h : s.validate = .ok ()) : s.plan.build = .ok s := by
  unfold validate at h
  cases hbuild : s.plan.build with
  | error err =>
    rw [hbuild] at h
    cases h
  | ok rebuilt =>
    obtain ⟨-,hdecls⟩ := Plan.packed_of_build hbuild
    obtain ⟨-,fields,-,rfl,-⟩ := Plan.build_eq_ok_iff.mp hbuild
    simp only [hbuild, bind, Except.bind] at h
    have hcheck : checkPlaces s.fields fields = .ok () := by
      cases hc : checkPlaces s.fields fields with
      | ok u => rfl
      | error err =>
        rw [hc] at h
        cases h
    have hfields : fields = s.fields := eq_of_checkPlaces hcheck hdecls
    rw [hfields]
    rfl

/-- A valid schema is packed: its fields are those that placing their declarations gives. -/
theorem isPacked_of_validate {s : Schema} (h : s.validate = .ok ()) : s.IsPacked :=
  (Plan.packed_of_build (build_plan_of_validate h)).1

theorem mem_of_field {s : Schema} {name : String} {f : Field} (h : s.field name = .ok f) :
    f ∈ s.fields ∧ f.name = name := by
  unfold field at h
  cases hfind : s.fields.find? (fun f => f.name = name) with
  | none =>
    rw [hfind] at h
    cases h
  | some g =>
    rw [hfind] at h
    cases h
    exact ⟨List.mem_of_find?_eq_some hfind,by simpa using List.find?_some hfind⟩

namespace IsPacked

variable {s : Schema} (h : s.IsPacked) {f g : Field} {k l : Nat}

include h

theorem eq_of_name (hf : f ∈ s.fields) (hg : g ∈ s.fields) (hname : f.name = g.name) : f = g :=
  List.inj_on_of_nodup_map h.names hf hg hname

/-- A field is found under its name. -/
theorem field_eq (hf : f ∈ s.fields) : s.field f.name = .ok f := by
  cases hfield : s.field f.name with
  | ok g =>
    obtain ⟨hg,hname⟩ := mem_of_field hfield
    rw [h.eq_of_name hg hf hname]
  | error err =>
    unfold field at hfield
    cases hfind : s.fields.find? (fun g => g.name = f.name) with
    | none =>
      have hnone := List.find?_eq_none.mp hfind f hf
      simp at hnone
    | some g =>
      rw [hfind] at hfield
      cases hfield

theorem headerSize_le (hf : f ∈ s.fields) (k : Nat) : s.headerSize ≤ f.position k :=
  Nat.le_trans (h.packed.bounds hf).1 (Nat.le_add_right _ _)

theorem le_checksumOffset (hf : f ∈ s.fields) (hk : k < f.length) :
    f.position k + f.type.size ≤ s.checksumOffset :=
  Nat.le_trans (Field.size_le_position hk) (h.packed.bounds hf).2

/-- Different elements share no byte. -/
theorem apart (hf : f ∈ s.fields) (hg : g ∈ s.fields) (hk : k < f.length) (hl : l < g.length)
    (hne : f.name ≠ g.name ∨ k ≠ l) :
    f.position k + f.type.size ≤ g.position l ∨ g.position l + g.type.size ≤ f.position k := by
  by_cases he : f = g
  · subst he
    have hkl : k ≠ l := hne.resolve_left (fun hn => hn rfl)
    rcases Nat.lt_or_gt_of_ne hkl with hlt | hlt
    · exact .inl (Field.size_le_position hlt)
    · exact .inr (Field.size_le_position hlt)
  · have hlimit := h.packed.apart hf hg he
    have hfk : f.position k + f.type.size ≤ f.limit := Field.size_le_position hk
    have hgl : g.position l + g.type.size ≤ g.limit := Field.size_le_position hl
    have hf0 : f.offset.toNat ≤ f.position k := Nat.le_add_right _ _
    have hg0 : g.offset.toNat ≤ g.position l := Nat.le_add_right _ _
    omega

end IsPacked

end Schema

end Cartridge.Save
