import Mathlib.Tactic.Common
import Cartridge.Json.Decode
import Cartridge.Proofs.Json.Scan

/-!
Typed data in documents. A document spells a value if it is plain and the value's reader finds the
value in it wherever the brackets of the document fit; lists and records spell what their parts do.
-/
namespace Cartridge.Json

mutual

def depth : Json → Nat
  | .null | .bool _ | .num _ | .str _ => 0
  | .arr items => depthOfItems items + 1
  | .obj members => depthOfMembers members + 1

def depthOfItems : List Json → Nat
  | [] => 0
  | item :: items => max (depth item) (depthOfItems items)

def depthOfMembers : List (Option String × Json) → Nat
  | [] => 0
  | (_, v) :: members => max (depth v) (depthOfMembers members)

end

/-- A document is plain, and is read as a value by readers that may open enough brackets. -/
structure Spells {α : Type} (read : Nat → Json → Option α) (x : α) (j : Json) : Prop where
  plain : j.IsPlain
  read : ∀ {d}, j.depth ≤ d → read d j = some x

section parts

@[simp] theorem isPlain_null : IsPlain .null := trivial

@[simp] theorem isPlain_bool (b : Bool) : IsPlain (.bool b) := trivial

@[simp] theorem isPlain_ofInt (i : Int) : (ofInt i).IsPlain := by
  simp [ofInt, IsPlain, Number.ofInt]

@[simp] theorem isPlain_ofNat (n : Nat) : (ofNat n).IsPlain := isPlain_ofInt n

@[simp] theorem isPlain_ofString (s : String) : (ofString s).IsPlain := rfl

@[simp] theorem isPlain_arr (items : List Json) : (arr items).IsPlain ↔ ∀ j ∈ items, j.IsPlain := by
  rw [IsPlain]
  induction items with
  | nil => simp [ArePlain]
  | cons j items ih => simp [ArePlain, ih]

@[simp] theorem isPlain_ofMembers (ms : List (String × Json)) :
    (ofMembers ms).IsPlain ↔ ∀ m ∈ ms, m.2.IsPlain := by
  rw [ofMembers, IsPlain]
  induction ms with
  | nil => simp [ArePlainMembers]
  | cons m ms ih => simp [ArePlainMembers, ih]

@[simp] theorem isPlain_single (key : String) (j : Json) : (single key j).IsPlain ↔ j.IsPlain := by
  simp [single]

@[simp] theorem ofString_ne_null (s : String) : ofString s ≠ .null := nofun

@[simp] theorem ofInt_ne_null (i : Int) : ofInt i ≠ .null := nofun

@[simp] theorem ofNat_ne_null (n : Nat) : ofNat n ≠ .null := nofun

@[simp] theorem ofMembers_ne_null (ms : List (String × Json)) : ofMembers ms ≠ .null := nofun

theorem depth_arr_le {items : List Json} {d : Nat} :
    (arr items).depth ≤ d ↔ ∃ e, d = e + 1 ∧ ∀ j ∈ items, j.depth ≤ e := by
  have hitems (e : Nat) : depthOfItems items ≤ e ↔ ∀ j ∈ items, j.depth ≤ e := by
    induction items with
    | nil => simp [depthOfItems]
    | cons j items ih => rw [depthOfItems, Nat.max_le, ih, List.forall_mem_cons]
  rw [depth]
  cases d with
  | zero => simp
  | succ d => simp [hitems]

theorem ofMembers_eq (ms : List (String × Json)) :
    ofMembers ms = .obj (ms.map fun m => (some m.1, m.2)) := rfl

theorem depth_ofMembers_le {ms : List (String × Json)} {d : Nat} :
    (ofMembers ms).depth ≤ d ↔ ∃ e, d = e + 1 ∧ ∀ m ∈ ms, m.2.depth ≤ e := by
  have hmembers (e : Nat) :
      depthOfMembers (ms.map fun m => (some m.1, m.2)) ≤ e ↔ ∀ m ∈ ms, m.2.depth ≤ e := by
    induction ms with
    | nil => simp [depthOfMembers]
    | cons m ms ih => rw [List.map_cons, depthOfMembers, Nat.max_le, ih, List.forall_mem_cons]
  rw [ofMembers_eq, depth]
  cases d with
  | zero => simp
  | succ d => simp [hmembers]

theorem depth_single_le {key : String} {j : Json} {d : Nat} :
    (single key j).depth ≤ d ↔ ∃ e, d = e + 1 ∧ j.depth ≤ e := by
  simp [single, depth_ofMembers_le]

/-- A record inside the bracket of its variant. -/
theorem depth_variant_le {key : String} {ms : List (String × Json)} {d : Nat} :
    (single key (ofMembers ms)).depth ≤ d ↔ ∃ e, d = e + 2 ∧ ∀ m ∈ ms, m.2.depth ≤ e := by
  simp only [depth_single_le, depth_ofMembers_le]
  exact ⟨fun ⟨_,hd,e,he,h⟩ => ⟨e,by omega,h⟩,fun ⟨e,hd,h⟩ => ⟨e + 1,hd,e,rfl,h⟩⟩

@[simp] theorem text?_ofString (s : String) : (ofString s).text? = some s := rfl

@[simp] theorem bool?_bool (b : Bool) : (Json.bool b).bool? = some b := rfl

@[simp] theorem variant?_ofMembers (key : String) (j : Json) :
    (ofMembers [(key, j)]).variant? = some (key, j) := rfl

@[simp] theorem variant?_single (key : String) (j : Json) :
    (single key j).variant? = some (key, j) :=
  variant?_ofMembers key j

theorem Number.toInt?_ofInt (i : Int) : (Number.ofInt i).toInt? = some i := by
  by_cases hneg : i < 0
  · have habs : -(i.natAbs : Int) = i := by omega
    have hwhole : i.natAbs ≠ 0 := by omega
    simp only [Number.toInt?, Number.ofInt, hneg, hwhole, habs, decide_true, and_self, if_true,
      if_false]
  · have habs : (i.natAbs : Int) = i := by omega
    simp only [Number.toInt?, Number.ofInt, hneg, habs, decide_false, and_self, if_true,
      Bool.false_eq_true, if_false]

theorem int?_ofInt {low high i : Int} (hlow : low ≤ i) (hhigh : i ≤ high) :
    (ofInt i).int? low high = some i := by
  rw [ofInt, int?, Number.toInt?_ofInt]
  simp [hlow, hhigh]

@[simp] theorem u8?_ofNat (b : UInt8) : (ofNat b.toNat).u8? = some b := by
  rw [u8?, ofNat, int?_ofInt (by omega) (by have := b.toNat_lt; omega)]
  simp

@[simp] theorem u16?_ofNat (n : UInt16) : (ofNat n.toNat).u16? = some n := by
  rw [u16?, ofNat, int?_ofInt (by omega) (by have := n.toNat_lt; omega)]
  simp

@[simp] theorem u32?_ofNat (n : UInt32) : (ofNat n.toNat).u32? = some n := by
  rw [u32?, ofNat, int?_ofInt (by omega) (by have := n.toNat_lt; omega)]
  simp

@[simp] theorem i16?_ofInt (i : Int16) : (ofInt i.toInt).i16? = some i := by
  rw [i16?, int?_ofInt (by have := i.le_toInt; omega) (by have := i.toInt_lt; omega)]
  simp

@[simp] theorem i32?_ofInt (i : Int32) : (ofInt i.toInt).i32? = some i := by
  rw [i32?, int?_ofInt (by have := i.le_toInt; omega) (by have := i.toInt_lt; omega)]
  simp

/-- A name among different ones is found. -/
theorem oneOf?_ofString {α : Type} {all : List α} {name : α → String}
    (hnames : (all.map name).Nodup) {a : α} (ha : a ∈ all) (d : Nat) :
    oneOf? all name d (ofString (name a)) = some a := by
  rw [ofString, oneOf?]
  induction all with
  | nil => cases ha
  | cons b all ih =>
    rw [List.map_cons, List.nodup_cons] at hnames
    rcases List.mem_cons.mp ha with rfl | ha
    · simp
    · have hne : name b ≠ name a := fun he => hnames.1 (he ▸ List.mem_map_of_mem ha)
      rw [List.find?_cons_of_neg (by simpa using hne)]
      exact ih hnames.2 ha

end parts

section lists

variable {α : Type} {write : α → Json}

theorem mapM_map {read : Json → Option α} {xs : List α} (h : ∀ x ∈ xs, read (write x) = some x) :
    (xs.map write).mapM read = some xs := by
  induction xs with
  | nil => rfl
  | cons x xs ih =>
    rw [List.map_cons, List.mapM_cons, h x (by simp), ih fun y hy => h y (by simp [hy])]
    rfl

/-- A list whose items open few enough brackets is read as it was written. -/
theorem items?_map {read : Nat → Json → Option α} {xs : List α} {d : Nat}
    (h : ∀ x ∈ xs, Spells read x (write x)) (hd : ∀ j ∈ xs.map write, j.depth ≤ d) :
    items? (read d) (.arr (xs.map write)) = some xs :=
  mapM_map fun x hx => (h x hx).read (hd _ (List.mem_map_of_mem hx))

theorem spells_list {read : Nat → Json → Option α} {xs : List α}
    (h : ∀ x ∈ xs, Spells read x (write x)) :
    Spells (fun d => list? d read) xs (.arr (xs.map write)) where
  plain := by simpa using fun x hx => (h x hx).plain
  read hd := by
    obtain ⟨d,rfl,hitems⟩ := depth_arr_le.mp hd
    exact items?_map h hitems

end lists

section records

variable {α : Type}

private theorem fields?_obj {names : List String} {members : List (Option String × Json)}
    {keyed : List (String × Json)}
    (h : members.mapM (fun m => m.1.map (·, m.2)) = some keyed) :
    fields? names (.obj members) =
      if ((keyed.filter fun m => names.contains m.1).map Prod.fst).Nodup then
        some ⟨false, keyed.filter fun m => names.contains m.1⟩
      else none :=
  congrArg (Option.bind · _) h

theorem fields?_ofMembers {names : List String} {ms : List (String × Json)}
    (hkeys : (ms.map Prod.fst).Sublist names) (hnames : names.Nodup) :
    fields? names (ofMembers ms) = some ⟨false, ms⟩ := by
  have hkeyed : (ms.map fun m => (some m.1, m.2)).mapM (fun m => m.1.map (·, m.2)) = some ms := by
    induction ms with
    | nil => rfl
    | cons m ms ih =>
      rw [List.map_cons, List.mapM_cons, ih ((List.sublist_cons_self _ _).trans hkeys)]
      rfl
  have hknown : (ms.filter fun m => names.contains m.1) = ms := by
    refine List.filter_eq_self.mpr fun m hm => ?_
    simpa using hkeys.subset (List.mem_map_of_mem hm)
  rw [ofMembers_eq, fields?_obj hkeyed, hknown, if_pos (hnames.sublist hkeys)]

/-- A record whose members are written under their names spells what they are put together to. -/
theorem spells_record {names : List String} {ms : List (String × Json)}
    {read : Nat → Json → Option α} {build : Nat → Fields → Option α} {x : α}
    (hread : ∀ d j, read d j = within d fun d => (j.fields? names).bind (build d))
    (hkeys : (ms.map Prod.fst).isSublist names = true) (hnames : names.Nodup)
    (hplain : ∀ m ∈ ms, m.2.IsPlain)
    (h : ∀ d, (∀ m ∈ ms, m.2.depth ≤ d) → build d ⟨false, ms⟩ = some x) :
    Spells read x (ofMembers ms) where
  plain := (isPlain_ofMembers ms).mpr hplain
  read hd := by
    obtain ⟨d,rfl,hms⟩ := depth_ofMembers_le.mp hd
    rw [hread, within, fields?_ofMembers (List.isSublist_iff_sublist.mp hkeys) hnames]
    exact h d hms

/-- A record under the name of its variant, which the value's reader takes apart. -/
theorem spells_variant {key : String} {ms : List (String × Json)} {read : Nat → Json → Option α}
    {x : α} (hplain : ∀ m ∈ ms, m.2.IsPlain)
    (h : ∀ d, (∀ m ∈ ms, m.2.depth ≤ d) → read (d + 2) (single key (ofMembers ms)) = some x) :
    Spells read x (single key (ofMembers ms)) where
  plain := by simpa using hplain
  read hd := by
    obtain ⟨d,rfl,hms⟩ := depth_variant_le.mp hd
    exact h d hms

@[simp] theorem need_mk (positional : Bool) (entries : List (String × Json)) (key : String)
    (read : Json → Option α) :
    (Fields.mk positional entries).need key read = (entries.lookup key).bind read := rfl

@[simp] theorem getD_mk (positional : Bool) (entries : List (String × Json)) (key : String)
    (absent : α) (read : Json → Option α) :
    (Fields.mk positional entries).getD key absent read =
      (entries.lookup key).elim (some absent) read := by
  rw [Fields.getD]
  cases entries.lookup key <;> rfl

@[simp] theorem get?_mk (positional : Bool) (entries : List (String × Json)) (key : String)
    (read : Json → Option α) :
    (Fields.mk positional entries).get? key read =
      (entries.lookup key).elim (some none) (nullable? read) :=
  getD_mk ..

@[simp] theorem named?_mk (entries : List (String × Json)) (key : String)
    (read : Json → Option α) :
    (Fields.mk false entries).named? key read =
      (entries.lookup key).elim (some none) (nullable? read) :=
  get?_mk ..

@[simp] theorem lookup_member? (key other : String) (j : Option Json) :
    (member? key j).lookup other = if other = key then j else none := by
  cases j with
  | none => simp [member?]
  | some j =>
    by_cases h : other = key
    · simp [member?, h]
    · simp [member?, List.lookup_cons, h, beq_false_of_ne h]

@[simp] theorem mem_member? {key : String} {j : Option Json} {m : String × Json} :
    m ∈ member? key j ↔ ∃ v, j = some v ∧ m = (key, v) := by
  cases j <;> simp [member?]

theorem forall_mem_member? {key : String} {write : α → Json} {x : Option α}
    {p : String × Json → Prop} :
    (∀ m ∈ member? key (x.map write), p m) ↔ ∀ a ∈ x, p (key, write a) := by
  cases x <;> simp [member?]

/-- A value that is left out or written is read as it was. -/
@[simp] theorem elim_nullable? {write : α → Json} {read : Json → Option α} {x : Option α}
    (h : ∀ a ∈ x, write a ≠ .null ∧ read (write a) = some a) :
    x.elim (some none) (nullable? read ∘ write) = some x := by
  cases x with
  | none => rfl
  | some a =>
    obtain ⟨hne,hread⟩ := h a rfl
    rw [Option.elim_some, Function.comp_apply, nullable?.eq_def]
    split
    next he => exact absurd he hne
    next => rw [hread]; rfl

end records

end Cartridge.Json
