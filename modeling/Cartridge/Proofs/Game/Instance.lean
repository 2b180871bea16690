import Cartridge.Game.Instance
import Mathlib.Data.List.Nodup

/-!
How the table of instances is laid out. Entities that no pool spawns come first, one slot each; then the pools of
declared entities follow one another, each with as many slots as its capacity. The ranges that are kept for pools are
laid out in step with the table, so that a slot belongs to a pool if and only if it lies in the range of the pool.
-/
namespace Cartridge.Game

def SlotRange.slots (r : SlotRange) : List Nat := List.range' r.first r.size

@[simp] theorem SlotRange.mem_slots {r : SlotRange} {i : Nat} :
    i ∈ r.slots ↔ r.first ≤ i ∧ i < r.first + r.size :=
  List.mem_range'_1

def singles (g : Game) : List Entity := g.entities.filter fun e => ∀ p ∈ g.pools, p.entity ≠ e.name

/-- The pools of declared entities. -/
def spawning (g : Game) : List Pool := g.pools.filter fun p => (g.entity? p.entity).isSome

def capacities : List Pool → Nat
  | [] => 0
  | p :: pools => p.capacity.toNat + capacities pools

/-- What stands in the table of instances, and which slots belong to which pool. -/
structure LaysOutInstances (g : Game) : Prop where
  /-- First comes an instance of each entity that no pool spawns, in the order of declaration. -/
  first : g.instances.take g.singles.length =
    g.singles.map fun e => ⟨e.name, e.tag, none, e.x, e.y, e.width, e.height⟩
  /-- Then each pool has as many instances of its entity as its capacity, behind those of the pools before it. -/
  run (before : List Pool) (p : Pool) (after : List Pool) : g.spawning = before ++ p :: after →
    ∃ e r, g.entity? p.entity = some e ∧ g.poolRange? p.name = some r ∧
      r.first = g.singles.length + capacities before ∧ r.size = p.capacity.toNat ∧
      (g.instances.drop r.first).take r.size =
        List.replicate p.capacity.toNat ⟨e.name, e.tag, some p.name, 0, 0, e.width, e.height⟩
  /-- Other pools have no range. -/
  others (pool : String) : pool ∉ g.spawning.map Pool.name → g.poolRange? pool = none
  /-- The ranges follow one another and take all other slots. -/
  cover : (g.spawning.filterMap fun p => g.poolRange? p.name).flatMap SlotRange.slots =
    List.range' g.singles.length (g.instances.length - g.singles.length)
  /-- Different pools share no slot. -/
  disjoint (p q : String) (r t : SlotRange) : p ≠ q → g.poolRange? p = some r → g.poolRange? q = some t →
    r.slots.Disjoint t.slots
  /-- A slot belongs to a pool if and only if it lies in the range of the pool. -/
  owner (i : Nat) (hi : i < g.instances.length) (pool : String) :
    (g.instances.get ⟨i, hi⟩).pool = some pool ↔ ∃ r, g.poolRange? pool = some r ∧ i ∈ r.slots

section
variable {g : Game} {first : Nat} {pools before after : List Pool} {p : Pool}

@[simp] theorem capacities_cons : capacities (p :: pools) = p.capacity.toNat + capacities pools := rfl

theorem staticInstances_eq (g : Game) : g.staticInstances = g.singles.map staticInstance := by
  have htest (e : Entity) : (!g.isPoolTemplate e.name) = decide (∀ p ∈ g.pools, p.entity ≠ e.name) := by
    rw [Bool.eq_iff_iff]
    simp [isPoolTemplate]
  rw [staticInstances, singles, funext htest]

def AreSpawning (g : Game) (pools : List Pool) : Prop := ∀ p ∈ pools, (g.entity? p.entity).isSome

theorem areSpawning_spawning (g : Game) : g.AreSpawning g.spawning := by
  intro p hp
  exact (List.mem_filter.mp hp).2

/-- Pools of unknown entities take no slots. -/
theorem flatMap_poolInstances_filter (g : Game) (pools : List Pool) :
    (pools.filter fun p => (g.entity? p.entity).isSome).flatMap g.poolInstances = pools.flatMap g.poolInstances := by
  induction pools with
  | nil => rfl
  | cons p pools ih =>
    cases he : g.entity? p.entity with
    | none => simp [he, ih, poolInstances]
    | some e => simp [he, ih]

theorem poolRanges_filter (g : Game) (first : Nat) (pools : List Pool) :
    g.poolRanges first (pools.filter fun p => (g.entity? p.entity).isSome) = g.poolRanges first pools := by
  induction pools generalizing first with
  | nil => rfl
  | cons p pools ih =>
    cases he : g.entity? p.entity with
    | none => simp [he, ih, poolRanges]
    | some e => simp [he, ih, poolRanges]

theorem poolRanges_cons (hp : (g.entity? p.entity).isSome) :
    g.poolRanges first (p :: pools) =
      (p.name, ⟨first, p.capacity.toNat⟩) :: g.poolRanges (first + p.capacity.toNat) pools := by
  obtain ⟨e,he⟩ := Option.isSome_iff_exists.mp hp
  simp [poolRanges, he]

theorem length_poolInstances (hp : (g.entity? p.entity).isSome) :
    (g.poolInstances p).length = p.capacity.toNat := by
  obtain ⟨e,he⟩ := Option.isSome_iff_exists.mp hp
  simp [poolInstances, he]

theorem length_flatMap_poolInstances (h : g.AreSpawning pools) :
    (pools.flatMap g.poolInstances).length = capacities pools := by
  induction pools with
  | nil => rfl
  | cons p pools ih =>
    obtain ⟨hp,hpools⟩ := List.forall_mem_cons.mp h
    rw [List.flatMap_cons, List.length_append, length_poolInstances hp, ih hpools, capacities_cons]

/-- Ranges of pools are laid out one behind the other. -/
theorem poolRanges_append (h : g.AreSpawning before) :
    g.poolRanges first (before ++ after) =
      g.poolRanges first before ++ g.poolRanges (first + capacities before) after := by
  induction before generalizing first with
  | nil => rfl
  | cons p before ih =>
    obtain ⟨hp,hbefore⟩ := List.forall_mem_cons.mp h
    rw [List.cons_append, poolRanges_cons hp, poolRanges_cons hp, ih hbefore, capacities_cons, Nat.add_assoc,
      List.cons_append]

theorem map_fst_poolRanges (h : g.AreSpawning pools) :
    (g.poolRanges first pools).map Prod.fst = pools.map Pool.name := by
  induction pools generalizing first with
  | nil => rfl
  | cons p pools ih =>
    obtain ⟨hp,hpools⟩ := List.forall_mem_cons.mp h
    rw [poolRanges_cons hp, List.map_cons, List.map_cons, ih hpools]

/-- The ranges take as many slots as the pools, in the same order. -/
theorem flatMap_slots_poolRanges (h : g.AreSpawning pools) :
    ((g.poolRanges first pools).map Prod.snd).flatMap SlotRange.slots =
      List.range' first (capacities pools) := by
  induction pools generalizing first with
  | nil => rfl
  | cons p pools ih =>
    obtain ⟨hp,hpools⟩ := List.forall_mem_cons.mp h
    rw [poolRanges_cons hp, List.map_cons, List.flatMap_cons, ih hpools, capacities_cons, SlotRange.slots,
      List.range'_append_1]

end

section
variable {α β : Type} [BEq α] [LawfulBEq α]

/-- Under different keys a list is looked up by membership, from either end. -/
theorem lookup_reverse_eq_some_iff {l : List (α × β)} (h : (l.map Prod.fst).Nodup) {k : α} {v : β} :
    l.reverse.lookup k = some v ↔ (k, v) ∈ l := by
  rw [List.lookup_eq_some_iff]
  constructor
  · rintro ⟨l₁,l₂,hl,-⟩
    exact List.mem_reverse.mp (hl ▸ by simp)
  · intro hmem
    obtain ⟨l₁,l₂,hl⟩ := List.append_of_mem (List.mem_reverse.mpr hmem)
    refine ⟨l₁,l₂,hl,fun x hx => ?_⟩
    have hnodup : (l.reverse.map Prod.fst).Nodup := by rwa [List.map_reverse, List.nodup_reverse]
    rw [hl, List.map_append, List.map_cons, List.nodup_append] at hnodup
    have hne : x.1 ≠ k := hnodup.2.2 x.1 (List.mem_map_of_mem hx) k List.mem_cons_self
    simpa using hne.symm

end

section
variable {g : Game} {before after : List Pool} {p : Pool}

theorem instances_eq (g : Game) :
    g.instances = g.singles.map staticInstance ++ g.spawning.flatMap g.poolInstances := by
  rw [instances, staticInstances_eq, spawning, flatMap_poolInstances_filter]

theorem length_instances (g : Game) :
    g.instances.length = g.singles.length + capacities g.spawning := by
  rw [instances_eq, List.length_append, List.length_map, length_flatMap_poolInstances g.areSpawning_spawning]

def ranges (g : Game) : List (String × SlotRange) := g.poolRanges g.singles.length g.spawning

theorem map_fst_ranges (g : Game) : g.ranges.map Prod.fst = g.spawning.map Pool.name :=
  map_fst_poolRanges g.areSpawning_spawning

theorem poolRange?_eq (g : Game) (pool : String) : g.poolRange? pool = g.ranges.reverse.lookup pool := by
  rw [poolRange?, staticInstances_eq, List.length_map, ranges, spawning, poolRanges_filter]

theorem nodup_spawning (h : (g.pools.map Pool.name).Nodup) : (g.spawning.map Pool.name).Nodup :=
  (List.filter_sublist.map Pool.name).nodup h

theorem poolRange?_eq_some_iff (h : (g.pools.map Pool.name).Nodup) {pool : String} {r : SlotRange} :
    g.poolRange? pool = some r ↔ (pool, r) ∈ g.ranges := by
  rw [poolRange?_eq]
  exact lookup_reverse_eq_some_iff (g.map_fst_ranges ▸ nodup_spawning h)

/-- The range of a pool lies behind those of the pools before it. -/
theorem poolRange?_of_split (h : (g.pools.map Pool.name).Nodup) (hsplit : g.spawning = before ++ p :: after) :
    g.poolRange? p.name = some ⟨g.singles.length + capacities before, p.capacity.toNat⟩ := by
  have hall : g.AreSpawning (before ++ p :: after) := hsplit ▸ g.areSpawning_spawning
  obtain ⟨hbefore,hrest⟩ := List.forall_mem_append.mp hall
  rw [poolRange?_eq_some_iff h, ranges, hsplit, poolRanges_append hbefore,
    poolRanges_cons (hrest p List.mem_cons_self)]
  exact List.mem_append_right _ List.mem_cons_self

/-- The slots of a pool in the table. -/
theorem slice_of_split (hsplit : g.spawning = before ++ p :: after) :
    (g.instances.drop (g.singles.length + capacities before)).take p.capacity.toNat = g.poolInstances p := by
  have hall : g.AreSpawning (before ++ p :: after) := hsplit ▸ g.areSpawning_spawning
  obtain ⟨hbefore,hrest⟩ := List.forall_mem_append.mp hall
  have hfirst : (g.singles.map staticInstance ++ before.flatMap g.poolInstances).length =
      g.singles.length + capacities before := by
    rw [List.length_append, List.length_map, length_flatMap_poolInstances hbefore]
  rw [instances_eq, hsplit, List.flatMap_append, List.flatMap_cons, ← List.append_assoc, ← hfirst,
    List.drop_left, ← length_poolInstances (hrest p List.mem_cons_self), List.take_left]

/-- Every range is the range of a pool of a declared entity. -/
theorem exists_split_of_poolRange? (h : (g.pools.map Pool.name).Nodup) {pool : String} {r : SlotRange}
    (hr : g.poolRange? pool = some r) : ∃ before p after, g.spawning = before ++ p :: after ∧ p.name = pool ∧
      r = ⟨g.singles.length + capacities before, p.capacity.toNat⟩ := by
  have hmem : pool ∈ g.spawning.map Pool.name := by
    rw [← map_fst_ranges]
    exact List.mem_map_of_mem ((poolRange?_eq_some_iff h).mp hr)
  obtain ⟨p,hp,rfl⟩ := List.mem_map.mp hmem
  obtain ⟨before,after,hsplit⟩ := List.append_of_mem hp
  rw [poolRange?_of_split h hsplit] at hr
  exact ⟨before,p,after,hsplit,rfl,(Option.some.inj hr).symm⟩

/-- A slot in the range of a pool belongs to the pool. -/
theorem pool_of_mem_slots (h : (g.pools.map Pool.name).Nodup) {pool : String} {r : SlotRange}
    (hr : g.poolRange? pool = some r) {i : Nat} (hmem : i ∈ r.slots) (hi : i < g.instances.length) :
    (g.instances.get ⟨i, hi⟩).pool = some pool := by
  obtain ⟨before,p,after,hsplit,rfl,rfl⟩ := exists_split_of_poolRange? h hr
  obtain ⟨hfirst,hlast⟩ := SlotRange.mem_slots.mp hmem
  have hslot : (g.instances.get ⟨i, hi⟩) ∈ g.poolInstances p := by
    rw [← slice_of_split hsplit, List.mem_take_iff_getElem]
    refine ⟨i - (g.singles.length + capacities before),?_,?_⟩
    · simp only [List.length_drop, Nat.lt_min]
      simp only at hlast hfirst
      omega
    · simp only at hfirst
      simp [List.getElem_drop, Nat.add_sub_cancel' hfirst]
  have hp : (g.entity? p.entity).isSome := g.areSpawning_spawning p (hsplit ▸ by simp)
  obtain ⟨e,he⟩ := Option.isSome_iff_exists.mp hp
  rw [poolInstances, he] at hslot
  rw [List.eq_of_mem_replicate hslot]

theorem map_snd_ranges (h : (g.pools.map Pool.name).Nodup) :
    (g.spawning.filterMap fun p => g.poolRange? p.name) = g.ranges.map Prod.snd := by
  have hlookup : ∀ x ∈ g.ranges, g.poolRange? x.1 = some x.2 := fun x hx => (poolRange?_eq_some_iff h).mpr hx
  have hnames : (g.spawning.filterMap fun p => g.poolRange? p.name) =
      (g.spawning.map Pool.name).filterMap g.poolRange? := by
    rw [List.filterMap_map]
    rfl
  rw [hnames, ← map_fst_ranges, List.filterMap_map, ← List.filterMap_eq_map]
  exact List.filterMap_congr hlookup

theorem flatMap_slots_ranges (g : Game) :
    (g.ranges.map Prod.snd).flatMap SlotRange.slots =
      List.range' g.singles.length (g.instances.length - g.singles.length) := by
  rw [ranges, flatMap_slots_poolRanges g.areSpawning_spawning, length_instances, Nat.add_sub_cancel_left]

theorem lt_of_mem_slots (h : (g.pools.map Pool.name).Nodup) {pool : String} {r : SlotRange}
    (hr : g.poolRange? pool = some r) {i : Nat} (hmem : i ∈ r.slots) :
    g.singles.length ≤ i ∧ i < g.instances.length := by
  have hrange : r ∈ g.ranges.map Prod.snd := List.mem_map_of_mem ((poolRange?_eq_some_iff h).mp hr)
  have hslot := List.mem_flatMap_of_mem hrange hmem
  rw [flatMap_slots_ranges, List.mem_range'_1] at hslot
  omega

theorem pool_of_lt_singles {i : Nat} (hi : i < g.singles.length) (hlt : i < g.instances.length) :
    (g.instances.get ⟨i, hlt⟩).pool = none := by
  have hslot : g.instances[i]? = (g.singles.map staticInstance)[i]? := by
    rw [instances_eq, List.getElem?_append_left (by simpa using hi)]
  rw [List.getElem?_eq_getElem hlt, List.getElem?_map, List.getElem?_eq_getElem hi] at hslot
  exact congrArg Instance.pool (Option.some.inj hslot)

/-- In a game whose pools have different names, the table lists single instances and then the slots of one pool after
the other, and each slot lies in the range of its own pool only. -/
theorem laysOutInstances (h : (g.pools.map Pool.name).Nodup) : g.LaysOutInstances := by
  have howner (i : Nat) (hi : i < g.instances.length) (pool : String) :
      (g.instances.get ⟨i, hi⟩).pool = some pool ↔ ∃ r, g.poolRange? pool = some r ∧ i ∈ r.slots := by
    refine ⟨fun hpool => ?_,fun ⟨r,hr,hmem⟩ => pool_of_mem_slots h hr hmem hi⟩
    have hle : g.singles.length ≤ i := by
      by_contra hlt
      rw [pool_of_lt_singles (Nat.lt_of_not_le hlt) hi] at hpool
      cases hpool
    have hslot : i ∈ (g.ranges.map Prod.snd).flatMap SlotRange.slots := by
      rw [flatMap_slots_ranges, List.mem_range'_1]
      omega
    obtain ⟨r,hr,hmem⟩ := List.mem_flatMap.mp hslot
    obtain ⟨⟨name,r⟩,hx,rfl⟩ := List.mem_map.mp hr
    have hrange : g.poolRange? name = some r := (poolRange?_eq_some_iff h).mpr hx
    have hname : name = pool := Option.some.inj ((pool_of_mem_slots h hrange hmem hi).symm.trans hpool)
    exact ⟨r,hname ▸ hrange,hmem⟩
  exact {
    first := by
      rw [instances_eq, List.take_left' (List.length_map staticInstance)]
      rfl
    run := fun before p after hsplit => by
      have hp : (g.entity? p.entity).isSome := g.areSpawning_spawning p (hsplit ▸ by simp)
      obtain ⟨e,he⟩ := Option.isSome_iff_exists.mp hp
      refine ⟨e,_,he,poolRange?_of_split h hsplit,rfl,rfl,?_⟩
      rw [slice_of_split hsplit, poolInstances, he]
    others := fun pool hpool => by
      rw [Option.eq_none_iff_forall_ne_some]
      intro r hr
      obtain ⟨before,p,after,hsplit,rfl,-⟩ := exists_split_of_poolRange? h hr
      exact hpool (List.mem_map_of_mem (hsplit ▸ by simp))
    cover := by rw [map_snd_ranges h, flatMap_slots_ranges]
    disjoint := fun p q r t hne hr ht i hir hit => by
      have hlt : i < g.instances.length := (lt_of_mem_slots h hr hir).2
      have hp := (howner i hlt p).mpr ⟨r,hr,hir⟩
      have hq := (howner i hlt q).mpr ⟨t,ht,hit⟩
      exact hne (Option.some.inj (hp.symm.trans hq))
    owner := howner }

def orchard : Game :=
  { name := "orchard"
    entities := [⟨"hero", "player", 8, 8, 16, 16⟩, ⟨"apple", "fruit", 4, 4, 0, 0⟩, ⟨"tree", "wood", 8, 16, 40, 0⟩]
    pools := [⟨"fallen", "apple", 2⟩, ⟨"ghosts", "ghost", 3⟩, ⟨"none", "tree", 0⟩, ⟨"thrown", "apple", 1⟩] }

theorem laysOutInstances_orchard : (orchard.pools.map Pool.name).Nodup ∧ orchard.LaysOutInstances ∧
    orchard.instances.map Instance.pool = [none, some "fallen", some "fallen", some "thrown"] ∧
    ["fallen", "ghosts", "none", "thrown"].map orchard.poolRange? =
      [some ⟨1, 2⟩, none, some ⟨3, 0⟩, some ⟨3, 1⟩] :=
  ⟨by decide,laysOutInstances (by decide),by decide +kernel,by decide +kernel⟩

end

end Cartridge.Game
