import Mathlib.Tactic.Common
import Cartridge.Proofs.Save.Bytes
import Cartridge.Proofs.Save.Layout

/-!
A save image is a typed store. Writing an element of a valid schema changes no other element and
neither header nor checksum; so after any calls an element reads as the value last written to it, and
sealing makes the slot valid.
-/
namespace Cartridge.Save

namespace Schema

def header (s : Schema) : List UInt8 := (s.magic.map Vector.toList).getD [] ++ [s.version]

theorem length_header (s : Schema) : s.header.length = s.headerSize := by
  rw [header, headerSize, headerSizeOf]
  cases s.magic <;> simp

def HasElement (s : Schema) (name : String) (index : Nat) : Prop :=
  ∃ f ∈ s.fields, f.name = name ∧ index < f.length

end Schema

namespace Image

theorem write_behind {front rest part : List UInt8} (h : part.length ≤ rest.length) :
    write (front ++ rest) front.length part = front ++ (part ++ rest.drop part.length) := by
  rw [write_eq (by rw [List.length_append]; omega), List.take_left, List.drop_length_add_append]

/-- Magic number and version are written to the front. -/
theorem write_header (s : Schema) :
    (write (List.replicate s.slotSize 0) 0 ((s.magic.map Vector.toList).getD [])).set s.versionOffset s.version =
      s.header ++ List.replicate (s.slotSize - s.headerSize) 0 := by
  have hheader := s.length_header
  have hslot : s.headerSize ≤ s.slotSize := by
    rw [Schema.slotSize, Schema.checksumOffset]
    omega
  rw [Schema.header] at hheader ⊢
  generalize (s.magic.map Vector.toList).getD [] = magic at hheader ⊢
  rw [List.length_append, List.length_singleton] at hheader
  have hmagic : write (List.replicate s.slotSize 0) 0 magic =
      magic ++ List.replicate (s.slotSize - magic.length) 0 := by
    rw [← List.drop_replicate]
    exact @write_behind [] (List.replicate s.slotSize 0) magic (by rw [List.length_replicate]; omega)
  have hversion : write (magic ++ List.replicate (s.slotSize - magic.length) 0) magic.length [s.version] =
      magic ++ ([s.version] ++ List.replicate (s.slotSize - s.headerSize) 0) := by
    rw [write_behind (by rw [List.length_replicate, List.length_singleton]; omega), List.drop_replicate,
      List.length_singleton, Nat.sub_sub, hheader]
  rw [hmagic, Schema.versionOffset, ← hheader, Nat.add_sub_cancel, hheader, List.append_assoc]
  exact hversion

/-- A part that is written again and again, each time behind the last one, stands there as often. -/
private theorem foldl_write_behind {front rest part : List UInt8} {n : Nat} (h : n * part.length ≤ rest.length) :
    (List.range n).foldl (fun bytes k => write bytes (front.length + k * part.length) part) (front ++ rest) =
      front ++ ((List.replicate n part).flatten ++ rest.drop (n * part.length)) := by
  induction n with
  | zero => simp
  | succ n ih =>
    rw [Nat.succ_mul] at h
    have hlength : front.length + n * part.length = (front ++ (List.replicate n part).flatten).length := by simp
    rw [List.range_succ, List.foldl_append, ih (by omega), List.foldl_cons, List.foldl_nil, ← List.append_assoc,
      hlength, write_behind (by rw [List.length_drop]; omega), List.drop_drop, ← Nat.succ_mul,
      List.replicate_succ', List.flatten_append, List.flatten_singleton]
    simp only [List.append_assoc]

def defaultBytes (f : Field) : List UInt8 :=
  (List.replicate f.length (f.type.encode f.default.toInt)).flatten

theorem writeDefaults_behind {f : Field} {front rest : List UInt8} (hfront : front.length = f.offset.toNat)
    (h : f.length * f.type.size ≤ rest.length) :
    writeDefaults (front ++ rest) f = front ++ (defaultBytes f ++ rest.drop (f.length * f.type.size)) := by
  have hsize := f.type.length_encode f.default.toInt
  rw [← hsize] at h ⊢
  rw [writeDefaults, ← hfront, ← hsize]
  exact foldl_write_behind h

/-- What stands before the checksum in a new slot where the fields stand one behind the other. -/
def covered (s : Schema) : List UInt8 := s.header ++ s.fields.flatMap defaultBytes

theorem Holds.append {bytes part : List UInt8} {position : Nat} (h : Holds bytes position part)
    (front : List UInt8) : Holds (front ++ bytes) (front.length + position) part := by
  rw [Holds, List.drop_length_add_append]
  exact h

private theorem holds_replicate (part : List UInt8) {n k : Nat} (hk : k < n) (rest : List UInt8) :
    Holds ((List.replicate n part).flatten ++ rest) (k * part.length) part := by
  induction n generalizing k with
  | zero => cases hk
  | succ n ih =>
    rw [List.replicate_succ, List.flatten_cons, List.append_assoc]
    cases k with
    | zero => simp [Holds]
    | succ k =>
      rw [Nat.succ_mul, Nat.add_comm]
      exact (ih (Nat.lt_of_succ_lt_succ hk)).append part

theorem length_defaultBytes (f : Field) : (defaultBytes f).length = f.length * f.type.size := by
  simp [defaultBytes]

theorem holds_defaultBytes {f : Field} {k : Nat} (hk : k < f.length) (rest : List UInt8) :
    Holds (defaultBytes f ++ rest) (k * f.type.size) (f.type.encode f.default.toInt) := by
  have h := holds_replicate (f.type.encode f.default.toInt) hk rest
  rwa [FieldType.length_encode] at h

end Image

namespace Packed

variable {offset : Nat} {fs : List Field}

theorem length_defaults (h : Packed offset fs) :
    (fs.flatMap Image.defaultBytes).length = Field.total fs := by
  induction fs generalizing offset with
  | nil => rfl
  | cons f fs ih =>
    obtain ⟨hoffset,hlimit,hrest⟩ := h
    rw [List.flatMap_cons, List.length_append, ih hrest, Field.total, Image.length_defaultBytes]
    rw [Field.limit, Field.position, hoffset] at hlimit
    omega

theorem foldl_writeDefaults (h : Packed offset fs) {front rest : List UInt8} (hfront : front.length = offset)
    (hrest : Field.total fs ≤ rest.length) : fs.foldl Image.writeDefaults (front ++ rest) =
      front ++ (fs.flatMap Image.defaultBytes ++ rest.drop (Field.total fs)) := by
  induction fs generalizing offset front rest with
  | nil => rfl
  | cons f fs ih =>
    obtain ⟨hoffset,hlimit,hpacked⟩ := h
    have hsize : f.size.toNat = f.length * f.type.size := by
      rw [Field.limit, Field.position, hoffset] at hlimit
      omega
    rw [Field.total, hsize] at hrest
    have hnext : (front ++ Image.defaultBytes f).length = f.limit := by
      rw [List.length_append, Image.length_defaultBytes, hfront, ← hsize, hlimit]
    rw [List.foldl_cons, Image.writeDefaults_behind (hfront.trans hoffset.symm) (by omega), ← List.append_assoc,
      ih hpacked hnext (by rw [List.length_drop]; omega), List.drop_drop, Field.total, hsize, List.flatMap_cons]
    simp only [List.append_assoc]

/-- Behind what fills the bytes up to their offset, packed defaults stand at the fields' positions. -/
theorem holds_defaults (h : Packed offset fs) {front : List UInt8} (hfront : front.length = offset)
    (back : List UInt8) {f : Field} (hf : f ∈ fs) {k : Nat} (hk : k < f.length) :
    Image.Holds (front ++ (fs.flatMap Image.defaultBytes ++ back)) (f.position k)
      (f.type.encode f.default.toInt) := by
  induction fs generalizing offset front with
  | nil => cases hf
  | cons g fs ih =>
    obtain ⟨hoffset,hlimit,hrest⟩ := h
    rw [List.flatMap_cons, List.append_assoc]
    rcases List.mem_cons.mp hf with rfl | hfs
    · rw [Field.position, hoffset, ← hfront]
      exact (Image.holds_defaultBytes hk _).append front
    · rw [← List.append_assoc]
      refine ih hrest ?_ hfs
      rw [List.length_append, Image.length_defaultBytes, hfront, ← hoffset]
      rfl

end Packed

/-- A call that writes a value. -/
structure Write where
  name : String
  index : Nat
  value : Int
  deriving DecidableEq, Repr

def lastWritten (written : List Write) (name : String) (index : Nat) : Option Int :=
  (written.reverse.find? fun w => w.name = name ∧ w.index = index).map Write.value

theorem lastWritten_append (written : List Write) (w : Write) (name : String) (index : Nat) :
    lastWritten (written ++ [w]) name index =
      if w.name = name ∧ w.index = index then some w.value else lastWritten written name index := by
  rw [lastWritten, List.reverse_append]
  by_cases h : w.name = name ∧ w.index = index
  · simp [h]
  · simp [h, lastWritten]

/-- An image and the calls that succeeded on it, in order. -/
structure History where
  image : Image
  written : List Write

namespace History

def new (s : Schema) : History := ⟨.new s, []⟩

/-- One call. One that fails gives no image, and the old one is kept. -/
def call (h : History) (w : Write) : History :=
  match h.image.set w.name w.index w.value with
  | .ok image => ⟨image, h.written ++ [w]⟩
  | .error _ => h

def calls (h : History) (ws : List Write) : History := ws.foldl call h

/-- What holds of an image after calls on a new slot: its header and checksum are as they were, and at
every element stands the value last written. -/
structure IsFaithful (s : Schema) (h : History) : Prop where
  schema : h.image.schema = s
  length : h.image.bytes.length = s.slotSize
  header : h.image.bytes.take s.headerSize = s.header
  checksum : h.image.bytes.drop s.checksumOffset = (Image.new s).bytes.drop s.checksumOffset
  holds : ∀ f ∈ s.fields, ∀ k < f.length, Image.Holds h.image.bytes (f.position k)
    (f.type.encode ((lastWritten h.written f.name k).getD f.default.toInt))

end History

namespace Schema.IsPacked

variable {s : Schema} (h : s.IsPacked)

include h

theorem length_covered : (Image.covered s).length = s.checksumOffset := by
  rw [Image.covered, List.length_append, h.packed.length_defaults, s.length_header]
  rfl

/-- In a new slot the header, the defaults of the fields and the checksum stand one behind the other. -/
theorem bytes_new : (Image.new s).bytes =
    Image.covered s ++ s.checksum.encode (s.checksum.compute (Image.covered s)) := by
  have hsize : s.slotSize = s.headerSize + (Field.total s.fields + s.checksum.size) := Nat.add_assoc _ _ _
  have hdefaults : s.fields.foldl Image.writeDefaults
      ((Image.write (List.replicate s.slotSize 0) 0 ((s.magic.map Vector.toList).getD [])).set
        s.versionOffset s.version) = Image.covered s ++ List.replicate s.checksum.size 0 := by
    rw [Image.write_header, h.packed.foldl_writeDefaults s.length_header (by rw [List.length_replicate]; omega),
      List.drop_replicate, hsize, Image.covered, List.append_assoc]
    congr 3
    omega
  have hcovered : (Image.covered s ++ List.replicate s.checksum.size 0).take s.checksumOffset = Image.covered s :=
    List.take_left' h.length_covered
  rw [Image.new, Image.sealed, hdefaults, Image.checksumBytes, hcovered, ← h.length_covered,
    Image.write_behind (by simp)]
  simp

theorem isFaithful_new : (History.new s).IsFaithful s where
  schema := rfl
  length := by
    change (Image.new s).bytes.length = _
    rw [h.bytes_new, List.length_append, h.length_covered, Checksum.length_encode]
    rfl
  header := by
    change (Image.new s).bytes.take _ = _
    rw [h.bytes_new, Image.covered, List.append_assoc]
    exact List.take_left' s.length_header
  checksum := rfl
  holds f hf k hk := by
    change Image.Holds (Image.new s).bytes _ _
    rw [h.bytes_new, Image.covered, List.append_assoc]
    exact h.packed.holds_defaults s.length_header _ hf hk

/-- An element is located if and only if it is there. -/
theorem locate_eq_ok_iff {i : Image} (hi : i.schema = s) {name : String} {k position : Nat} {f : Field} :
    i.locate name k = .ok (f, position) ↔
      (f ∈ s.fields ∧ f.name = name ∧ k < f.length) ∧ f.position k = position := by
  subst hi
  constructor
  · intro hlocate
    unfold Image.locate at hlocate
    cases hfield : i.schema.field name with
    | error err =>
      rw [hfield] at hlocate
      cases hlocate
    | ok g =>
      simp only [hfield, bind, Except.bind] at hlocate
      split_ifs at hlocate with hk
      cases hlocate
      obtain ⟨hf,hname⟩ := mem_of_field hfield
      exact ⟨⟨hf,hname,hk⟩,rfl⟩
  · rintro ⟨⟨hf,rfl,hk⟩,rfl⟩
    simp only [Image.locate, h.field_eq hf, bind, Except.bind, if_pos hk]
    rfl

theorem get_eq {i : Image} (hi : i.schema = s) {f : Field} (hf : f ∈ s.fields) {k : Nat}
    (hk : k < f.length) : i.get f.name k = .ok (f.type.decode (i.bytes.drop (f.position k))) := by
  rw [Image.get, (h.locate_eq_ok_iff hi).mpr ⟨⟨hf,rfl,hk⟩,rfl⟩]
  rfl

/-- A call that succeeds writes one element. -/
theorem set_eq_ok_iff {i j : Image} (hi : i.schema = s) {name : String} {k : Nat} {value : Int} :
    i.set name k value = .ok j ↔ ∃ f, (f ∈ s.fields ∧ f.name = name ∧ k < f.length) ∧
      j = ⟨s, Image.write i.bytes (f.position k) (f.type.encode value)⟩ := by
  constructor
  · intro hset
    unfold Image.set at hset
    cases hlocate : i.locate name k with
    | error err =>
      rw [hlocate] at hset
      cases hset
    | ok place =>
      obtain ⟨f,position⟩ := place
      rw [hlocate] at hset
      cases hset
      obtain ⟨helement,rfl⟩ := (h.locate_eq_ok_iff hi).mp hlocate
      exact ⟨f,helement,by rw [← hi]⟩
  · rintro ⟨f,helement,rfl⟩
    rw [Image.set, (h.locate_eq_ok_iff hi).mpr ⟨helement,rfl⟩, ← hi]
    rfl

/-- A call succeeds if and only if the element is there. -/
theorem set_succeeds_iff {i : Image} (hi : i.schema = s) (w : Write) :
    (∃ j, i.set w.name w.index w.value = .ok j) ↔ s.HasElement w.name w.index := by
  simp only [h.set_eq_ok_iff hi, HasElement]
  constructor
  · rintro ⟨_,f,⟨hf,helement⟩,-⟩
    exact ⟨f,hf,helement⟩
  · rintro ⟨f,hf,helement⟩
    exact ⟨_,f,⟨hf,helement⟩,rfl⟩

end Schema.IsPacked

namespace History.IsFaithful

variable {s : Schema} {h : History} (hh : h.IsFaithful s)

include hh

theorem get_eq (hs : s.IsPacked) {f : Field} (hf : f ∈ s.fields) {k : Nat} (hk : k < f.length) :
    h.image.get f.name k =
      .ok (f.type.reduce ((lastWritten h.written f.name k).getD f.default.toInt)) := by
  rw [hs.get_eq hh.schema hf hk, (hh.holds f hf k hk).decode_drop]

/-- Writing one element leaves header, checksum and all other elements as they were. -/
theorem write (hs : s.IsPacked) {f : Field} (hf : f ∈ s.fields) {k : Nat} (hk : k < f.length)
    (value : Int) :
    IsFaithful s ⟨⟨s, Image.write h.image.bytes (f.position k) (f.type.encode value)⟩,
      h.written ++ [⟨f.name, k, value⟩]⟩ := by
  have hbehind := hs.le_checksumOffset hf hk
  have hfits : f.position k + (f.type.encode value).length ≤ h.image.bytes.length := by
    rw [FieldType.length_encode, hh.length]
    exact Nat.le_trans hbehind (Nat.le_add_right _ _)
  constructor
  · rfl
  · exact (Image.length_write hfits).trans hh.length
  · exact (Image.take_write hfits (hs.headerSize_le hf k)).trans hh.header
  · refine (Image.drop_write hfits ?_).trans hh.checksum
    rwa [FieldType.length_encode]
  · intro g hg l hl
    rw [lastWritten_append]
    by_cases he : f.name = g.name ∧ k = l
    · obtain ⟨hname,rfl⟩ := he
      obtain rfl := hs.eq_of_name hf hg hname
      rw [if_pos ⟨rfl,rfl⟩]
      exact Image.holds_write hfits
    · rw [if_neg he]
      refine Image.Holds.write hfits (hh.holds g hg l hl) ?_
      rw [FieldType.length_encode, FieldType.length_encode]
      exact (hs.apart hf hg hk hl (by tauto)).symm

theorem call (hs : s.IsPacked) (w : Write) : (h.call w).IsFaithful s := by
  unfold History.call
  cases hset : h.image.set w.name w.index w.value with
  | error err => exact hh
  | ok j =>
    obtain ⟨f,⟨hf,hname,hk⟩,rfl⟩ := (hs.set_eq_ok_iff hh.schema).mp hset
    obtain ⟨name,index,value⟩ := w
    obtain rfl : f.name = name := hname
    exact hh.write hs hf hk value

theorem calls (hs : s.IsPacked) (ws : List Write) : (h.calls ws).IsFaithful s := by
  induction ws generalizing h with
  | nil => exact hh
  | cons w ws ih => exact ih (hh.call hs w)

end History.IsFaithful

namespace Image

/-- A slot that begins as its schema says has the right magic number. -/
private theorem take_magic {s : Schema} {bytes : List UInt8} (h : bytes.take s.headerSize = s.header)
    {m : Magic} (hm : s.magic = some m) : bytes.take 4 = m.toList := by
  have hsize : s.headerSize = 5 := by simp [Schema.headerSize, Schema.headerSizeOf, hm]
  have hheader : s.header = m.toList ++ [s.version] := by simp [Schema.header, hm]
  rw [hsize, hheader] at h
  calc
    bytes.take 4 = (bytes.take 5).take 4 := by rw [List.take_take]; rfl
    _ = m.toList := by rw [h]; exact List.take_left' m.length_toList

/-- A slot that begins as its schema says has the right version. -/
private theorem getElem?_version {s : Schema} {bytes : List UInt8}
    (h : bytes.take s.headerSize = s.header) : bytes[s.versionOffset]? = some s.version := by
  have hlength := s.length_header
  rw [Schema.header, List.length_append, List.length_singleton] at hlength
  have hlt : s.versionOffset < s.headerSize := by
    rw [Schema.versionOffset]
    omega
  rw [← List.getElem?_take_of_lt hlt, h, Schema.header, Schema.versionOffset, ← hlength]
  simp

/-- Sealing stores the checksum of what stands before it, so a slot that begins as its schema says
becomes valid. -/
theorem isValid_sealed {i : Image} (hlength : i.bytes.length = i.schema.slotSize)
    (hheader : i.bytes.take i.schema.headerSize = i.schema.header) : i.sealed.isValid = true := by
  have hsize : i.checksumBytes.length = i.schema.checksum.size := Checksum.length_encode _ _
  have hfits : i.schema.checksumOffset + i.checksumBytes.length ≤ i.bytes.length := by
    rw [hsize, hlength]
    exact Nat.le_refl _
  have hcovered : i.sealed.bytes.take i.schema.checksumOffset = i.bytes.take i.schema.checksumOffset :=
    take_write hfits (Nat.le_refl _)
  have hsum : i.sealed.checksumBytes = i.checksumBytes := by
    unfold checksumBytes
    exact congrArg (fun bytes => i.schema.checksum.encode (i.schema.checksum.compute bytes)) hcovered
  have hbegins : i.sealed.bytes.take i.sealed.schema.headerSize = i.sealed.schema.header :=
    (take_write hfits (Nat.le_add_right _ _)).trans hheader
  have hstored : (i.sealed.bytes.drop i.schema.checksumOffset).take i.schema.checksum.size =
      i.checksumBytes := by
    have hholds := holds_write hfits
    rwa [Holds, hsize] at hholds
  rw [isValid, Bool.and_eq_true, Bool.and_eq_true, decide_eq_true_eq, decide_eq_true_eq]
  refine ⟨⟨?_,getElem?_version hbegins⟩,by rw [hsum]; exact hstored⟩
  cases hm : i.sealed.schema.magic with
  | none => rfl
  | some m => exact decide_eq_true (take_magic hbegins hm)

end Image

/-- After any calls on a new slot of a valid schema, failing ones among them, every element is read as the
value last written to it, or else its default, cut to its type. A call fails only where there is no such
element, and changes no byte then; no call changes the header or the checksum; and sealing the slot
makes it valid. -/
theorem image_is_typed_store {s : Schema} (hvalid : s.validate = .ok ()) (ws : List Write) :
    let h := (History.new s).calls ws
    (∀ f ∈ s.fields, ∀ k < f.length, h.image.get f.name k =
      .ok (f.type.reduce ((lastWritten h.written f.name k).getD f.default.toInt))) ∧
    (∀ w : Write, ((∃ j, h.image.set w.name w.index w.value = .ok j) ↔ s.HasElement w.name w.index) ∧
      ∀ err, h.image.set w.name w.index w.value = .error err → (h.call w).image.bytes = h.image.bytes) ∧
    h.image.bytes.take s.headerSize = (Image.new s).bytes.take s.headerSize ∧
    h.image.bytes.drop s.checksumOffset = (Image.new s).bytes.drop s.checksumOffset ∧
    h.image.sealed.isValid = true := by
  intro h
  have hs := Schema.isPacked_of_validate hvalid
  have hnew := hs.isFaithful_new
  have hh : h.IsFaithful s := hnew.calls hs ws
  refine ⟨fun f hf k hk => hh.get_eq hs hf hk,fun w => ⟨hs.set_succeeds_iff hh.schema w,fun err hset => ?_⟩,
    hh.header.trans hnew.header.symm,hh.checksum,Image.isValid_sealed ?_ ?_⟩
  · rw [History.call, hset]
  · rw [hh.schema, hh.length]
  · rw [hh.schema, hh.header]

def heroSchema : Schema where
  fields := [⟨"score", .u16, 5, 2, none, 0⟩, ⟨"flags", .bool, 7, 3, some 3, 1⟩,
    ⟨"mood", .i8, 10, 1, none, -5⟩]
  slots := 2
  checksum := .sum16
  magic := some #v[71, 66, 68, 83]
  version := 3

def heroWrites : List Write :=
  [⟨"score", 0, 7⟩, ⟨"score", 0, 70000⟩, ⟨"flags", 1, 256⟩, ⟨"flags", 3, 1⟩, ⟨"gold", 0, 1⟩]

theorem heroSchema_stores_values :
    let h := (History.new heroSchema).calls heroWrites
    heroSchema.validate = .ok () ∧ h.image.get "score" 0 = .ok 4464 ∧ h.image.get "flags" 1 = .ok 0 ∧
      h.image.get "mood" 0 = .ok (-5) ∧ h.image.sealed.isValid = true := by
  intro h
  have hvalid : heroSchema.validate = .ok () := by cbv
  obtain ⟨hget,-,-,-,hsealed⟩ := image_is_typed_store hvalid heroWrites
  refine ⟨hvalid,(hget ⟨"score", .u16, 5, 2, none, 0⟩ ?_ 0 ?_).trans ?_,
    (hget ⟨"flags", .bool, 7, 3, some 3, 1⟩ ?_ 1 ?_).trans ?_,
    (hget ⟨"mood", .i8, 10, 1, none, -5⟩ ?_ 0 ?_).trans ?_,hsealed⟩ <;> decide +kernel

end Cartridge.Save
