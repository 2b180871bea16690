import Cartridge.Json.Value
import Cartridge.Proofs.Json.Record

/-!
Free values written and read back. Integers of 64 bits are kept exactly, and members that stand in the
order of their keys are inserted again in that order; every value that is read is of this kind or holds
doubles.
-/
namespace Cartridge.Json.Value

/-- Induction over values, items and members being covered one by one. -/
@[induction_eliminator]
theorem induction {motive : Value → Prop} (null : motive .null) (bool : ∀ b, motive (.bool b))
    (int : ∀ i, motive (.int i)) (real : ∀ x, motive (.real x)) (str : ∀ s, motive (.str s))
    (arr : ∀ items, (∀ v ∈ items, motive v) → motive (.arr items))
    (obj : ∀ members, (∀ m ∈ members, motive m.2) → motive (.obj members)) (v : Value) : motive v :=
  @Value.rec motive (fun items => ∀ v ∈ items, motive v) (fun members => ∀ m ∈ members, motive m.2)
    (fun m => motive m.2) null bool int real str arr obj
    (by simp) (fun _ _ hv hvs => List.forall_mem_cons.mpr ⟨hv,hvs⟩)
    (by simp) (fun _ _ hm hms => List.forall_mem_cons.mpr ⟨hm,hms⟩) (fun _ _ hv => hv) v

mutual

def Every (p : Value → Prop) : Value → Prop
  | .null => p .null
  | .bool b => p (.bool b)
  | .int i => p (.int i)
  | .real x => p (.real x)
  | .str s => p (.str s)
  | .arr items => p (.arr items) ∧ EveryItem p items
  | .obj members => p (.obj members) ∧ EveryMember p members

def EveryItem (p : Value → Prop) : List Value → Prop
  | [] => True
  | v :: items => Every p v ∧ EveryItem p items

def EveryMember (p : Value → Prop) : List (String × Value) → Prop
  | [] => True
  | (_, v) :: members => Every p v ∧ EveryMember p members

end

/-- Integers have 64 bits, signed or unsigned, and the keys of an object stand in order, each once. -/
def Proper : Value → Prop
  | .int i => -9223372036854775808 ≤ i ∧ i ≤ Number.largestWord
  | .obj members => (members.map Prod.fst).Pairwise (· < ·)
  | _ => True

def Exact : Value → Prop
  | .real _ => False
  | _ => True

variable {p : Value → Prop}

theorem every_arr {items : List Value} :
    (arr items).Every p ↔ p (.arr items) ∧ ∀ v ∈ items, v.Every p := by
  have hitems : EveryItem p items ↔ ∀ v ∈ items, v.Every p := by
    induction items with
    | nil => simp [EveryItem]
    | cons v items ih => simp [EveryItem, ih]
  rw [Every, hitems]

theorem every_obj {members : List (String × Value)} :
    (obj members).Every p ↔ p (.obj members) ∧ ∀ m ∈ members, m.2.Every p := by
  have hmembers : EveryMember p members ↔ ∀ m ∈ members, m.2.Every p := by
    induction members with
    | nil => simp [EveryMember]
    | cons m members ih => rw [EveryMember, ih, List.forall_mem_cons]
  rw [Every, hmembers]

theorem toJsonItems_eq_map (items : List Value) : toJsonItems items = items.map toJson := by
  induction items with
  | nil => rfl
  | cons v items ih => rw [toJsonItems, ih, List.map_cons]

theorem toJson_obj (members : List (String × Value)) :
    (Value.obj members).toJson = .ofMembers (members.map fun m => (m.1, m.2.toJson)) := by
  rw [toJson, ofMembers, List.map_map]
  congr 1
  induction members with
  | nil => rfl
  | cons m members ih => rw [toJsonMembers, ih, List.map_cons]; rfl

/-- A member behind all others goes to the end. -/
theorem insert_of_lt {key : String} {v : Value} {members : List (String × Value)}
    (h : ∀ m ∈ members, m.1 < key) : insert key v members = members ++ [(key, v)] := by
  induction members with
  | nil => rfl
  | cons m members ih =>
    obtain ⟨hm,hms⟩ := List.forall_mem_cons.mp h
    have hne : key ≠ m.1 := fun he => String.lt_irrefl _ (he ▸ hm)
    rw [insert, if_neg (String.lt_asymm hm), if_neg hne, ih hms, List.cons_append]

theorem foldl_insert (done : List (String × Value)) {members : List (String × Value)}
    (h : ((done ++ members).map Prod.fst).Pairwise (· < ·)) :
    members.foldl (fun all (k, v) => insert k v all) done = done ++ members := by
  induction members generalizing done with
  | nil => simp
  | cons m members ih =>
    obtain ⟨k,v⟩ := m
    have hlast : ∀ n ∈ done, n.1 < k := by
      intro n hn
      rw [List.map_append, List.pairwise_append] at h
      exact h.2.2 n.1 (List.mem_map_of_mem hn) k (by simp)
    change members.foldl _ (insert k v done) = _
    rw [insert_of_lt hlast, ih _ (by simpa using h), List.append_assoc, List.singleton_append]

private theorem mapM_members {d : Nat} {members : List (String × Value)}
    (h : ∀ m ∈ members, ofJson? d m.2.toJson = some m.2) :
    (members.map fun m => (some m.1, m.2.toJson)).mapM
      (fun (k, v) => return (← k, ← ofJson? d v)) = some members := by
  induction members with
  | nil => rfl
  | cons m members ih =>
    obtain ⟨hm,hms⟩ := List.forall_mem_cons.mp h
    rw [List.map_cons, List.mapM_cons, ih hms]
    simp [hm]

/-- A proper value without doubles is read as it was written. -/
theorem spells {v : Value} (hproper : v.Every Proper) (hexact : v.Every Exact) :
    Spells ofJson? v v.toJson := by
  induction v with
  | null => exact ⟨trivial,fun _ => by rw [toJson, ofJson?]⟩
  | bool b => exact ⟨trivial,fun _ => by rw [toJson, ofJson?]⟩
  | int i =>
    refine ⟨isPlain_ofInt i,fun _ => ?_⟩
    rw [toJson, ofInt, ofJson?, Number.toValue?, Number.toInt?_ofInt]
    exact if_pos hproper
  | real x => cases hexact
  | str s => exact ⟨isPlain_ofString s,fun _ => by rw [toJson, ofString, ofJson?]; rfl⟩
  | arr items ih =>
    rw [every_arr] at hproper hexact
    have hitems := fun v hv => ih v hv (hproper.2 v hv) (hexact.2 v hv)
    rw [toJson, toJsonItems_eq_map]
    refine ⟨by simpa using fun v hv => (hitems v hv).plain,fun hd => ?_⟩
    obtain ⟨d,rfl,hdepth⟩ := depth_arr_le.mp hd
    rw [ofJson?, mapM_map fun v hv => (hitems v hv).read (hdepth _ (List.mem_map_of_mem hv))]
    rfl
  | obj members ih =>
    rw [every_obj] at hproper hexact
    have hmembers := fun m hm => ih m hm (hproper.2 m hm) (hexact.2 m hm)
    rw [toJson_obj]
    refine ⟨?_,fun hd => ?_⟩
    · simp only [isPlain_ofMembers, List.forall_mem_map]
      exact fun m hm => (hmembers m hm).plain
    · obtain ⟨d,rfl,hdepth⟩ := depth_ofMembers_le.mp hd
      rw [List.forall_mem_map] at hdepth
      have hread : ∀ m ∈ members, ofJson? d m.2.toJson = some m.2 := fun m hm =>
        (hmembers m hm).read (hdepth m hm)
      rw [ofMembers, List.map_map, ofJson?]
      refine (congrArg (Option.bind · _) (mapM_members hread)).trans ?_
      exact congrArg (some ∘ Value.obj) (foldl_insert [] hproper.1)

section reading

theorem mem_insert {key : String} {v : Value} {members : List (String × Value)} {m : String × Value}
    (hm : m ∈ insert key v members) : m = (key, v) ∨ m ∈ members := by
  induction members with
  | nil => simpa [insert] using hm
  | cons n members ih =>
    rw [insert] at hm
    split at hm
    · simpa using hm
    · split at hm
      · rcases List.mem_cons.mp hm with rfl | hm
        · exact .inl rfl
        · exact .inr (.tail _ hm)
      · rcases List.mem_cons.mp hm with rfl | hm
        · exact .inr (.head _)
        · exact (ih hm).imp_right (.tail _)

/-- Members stay in order when one is put at its place. -/
theorem pairwise_insert {key : String} {v : Value} {members : List (String × Value)}
    (h : (members.map Prod.fst).Pairwise (· < ·)) :
    ((insert key v members).map Prod.fst).Pairwise (· < ·) := by
  rw [List.pairwise_map] at h ⊢
  induction members with
  | nil => simp [insert]
  | cons n members ih =>
    rw [List.pairwise_cons] at h
    rw [insert]
    split
    next hlt =>
      refine List.pairwise_cons.mpr ⟨?_,List.pairwise_cons.mpr h⟩
      rintro m (_ | ⟨_,hm⟩)
      · exact hlt
      · exact String.lt_trans hlt (h.1 m hm)
    next hge =>
      split
      next heq => exact List.pairwise_cons.mpr ⟨fun m hm => heq ▸ h.1 m hm,h.2⟩
      next hne =>
        refine List.pairwise_cons.mpr ⟨fun m hm => ?_,ih h.2⟩
        rcases mem_insert hm with rfl | hm
        · exact Std.lt_of_le_of_ne (String.not_lt.mp hge) (Ne.symm hne)
        · exact h.1 m hm

theorem every_proper_insert {key : String} {v : Value} {members : List (String × Value)}
    (hv : v.Every Proper) (h : (obj members).Every Proper) :
    (obj (insert key v members)).Every Proper := by
  rw [every_obj] at h ⊢
  refine ⟨pairwise_insert h.1,fun m hm => ?_⟩
  rcases mem_insert hm with rfl | hm
  · exact hv
  · exact h.2 m hm

theorem mem_of_mapM {α β : Type} {f : α → Option β} {xs : List α} {ys : List β}
    (h : xs.mapM f = some ys) {y : β} (hy : y ∈ ys) : ∃ x ∈ xs, f x = some y := by
  induction xs generalizing ys with
  | nil => cases h; cases hy
  | cons x xs ih =>
    rw [List.mapM_cons] at h
    obtain ⟨z,hz,h⟩ := Option.bind_eq_some_iff.mp h
    obtain ⟨zs,hzs,h⟩ := Option.bind_eq_some_iff.mp h
    cases h
    rcases List.mem_cons.mp hy with rfl | hy
    · exact ⟨x,.head _,hz⟩
    · obtain ⟨w,hw,hf⟩ := ih hzs hy
      exact ⟨w,.tail _ hw,hf⟩

private theorem every_proper_foldl {read : List (String × Value)}
    (hread : ∀ m ∈ read, m.2.Every Proper) :
    ∀ {done}, (obj done).Every Proper →
      (obj (read.foldl (fun all (k, v) => insert k v all) done)).Every Proper := by
  induction read with
  | nil => exact id
  | cons m read ih =>
    obtain ⟨hm,hread⟩ := List.forall_mem_cons.mp hread
    exact fun hdone => ih hread (every_proper_insert hm hdone)

theorem every_proper_of_toValue? {n : Number} {v : Value} (h : n.toValue? = some v) :
    v.Every Proper := by
  rw [Number.toValue?] at h
  split at h
  next i _ =>
    split at h
    next hi => cases h; exact hi
    next => obtain ⟨x,-,rfl⟩ := Option.map_eq_some_iff.mp h; exact trivial
  next => obtain ⟨x,-,rfl⟩ := Option.map_eq_some_iff.mp h; exact trivial

/-- Every value that is read is proper. -/
theorem every_proper_of_ofJson? {d : Nat} {j : Json} {v : Value} (h : ofJson? d j = some v) :
    v.Every Proper := by
  induction d using Nat.strongRecOn generalizing j v with
  | ind d ih =>
  cases j with
  | null | bool b =>
    rw [ofJson?] at h
    cases h
    trivial
  | num n =>
    rw [ofJson?] at h
    exact every_proper_of_toValue? h
  | str s =>
    rw [ofJson?] at h
    obtain ⟨s,-,rfl⟩ := Option.map_eq_some_iff.mp h
    exact trivial
  | arr items =>
    cases d with
    | zero => cases h
    | succ d =>
      rw [ofJson?] at h
      obtain ⟨vs,hvs,rfl⟩ := Option.map_eq_some_iff.mp h
      refine every_arr.mpr ⟨trivial,fun v hv => ?_⟩
      obtain ⟨j,-,hj⟩ := mem_of_mapM hvs hv
      exact ih d (by omega) hj
  | obj members =>
    cases d with
    | zero => cases h
    | succ d =>
      rw [ofJson?] at h
      obtain ⟨read,hread,h⟩ := Option.bind_eq_some_iff.mp h
      cases h
      refine every_proper_foldl (fun m hm => ?_) (every_obj.mpr ⟨List.Pairwise.nil,nofun⟩)
      obtain ⟨⟨k,j⟩,-,hj⟩ := mem_of_mapM hread hm
      obtain ⟨_,-,hj⟩ := Option.bind_eq_some_iff.mp hj
      obtain ⟨w,hw,hj⟩ := Option.bind_eq_some_iff.mp hj
      cases hj
      exact ih d (by omega) hw

end reading

end Cartridge.Json.Value
