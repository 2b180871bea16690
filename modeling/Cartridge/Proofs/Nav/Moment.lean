import Mathlib.Tactic.Common
import Cartridge.Proofs.Nav.Path

/-!
The tables at every moment of a search, also while the neighbours of a node are looked at. They are sound throughout,
and what is written to them is guarded: a full table is left as it is, and the parent of a new node is the one that is
being expanded. So all that is stored fits the fixed sizes, and no sum leaves its word.
-/
namespace Cartridge.Nav

namespace Node

theorem toNat_pack {tile : UInt16} {parent : UInt8} (ht : tile.toNat < 1024) (hp : parent.toNat < 64) :
    (pack tile parent).toNat = tile.toNat * 64 + parent.toNat := by
  have hmask : parent.toNat &&& 63 = parent.toNat % 2 ^ 6 := Nat.and_two_pow_sub_one_eq_mod _ 6
  have hlow : (parent.toUInt16 &&& 0x3F).toNat = parent.toNat := by
    rw [UInt16.toNat_and, UInt8.toNat_toUInt16]
    change parent.toNat &&& 63 = parent.toNat
    omega
  have hhigh : (tile <<< 6).toNat = tile.toNat * 64 := by
    rw [UInt16.toNat_shiftLeft]
    change tile.toNat <<< 6 % 65536 = tile.toNat * 64
    rw [Nat.shiftLeft_eq]
    omega
  have hor := Nat.shiftLeft_add_eq_or_of_lt (i := 6) hp tile.toNat
  rw [Nat.shiftLeft_eq] at hor
  rw [pack, UInt16.toNat_or, hlow, hhigh]
  exact hor.symm

/-- A tile and a parent that fit their bits are read back from their word. -/
theorem unpack_pack {tile : UInt16} {parent : UInt8} (ht : tile.toNat < 1024) (hp : parent.toNat < 64) :
    unpack (pack tile parent) = (tile,parent) := by
  have hpack := toNat_pack ht hp
  have hmask (n : Nat) : n &&& 63 = n % 2 ^ 6 := Nat.and_two_pow_sub_one_eq_mod _ 6
  rw [unpack]
  refine Prod.ext (UInt16.toNat_inj.mp ?_) (UInt8.toNat_inj.mp ?_)
  · rw [UInt16.toNat_shiftRight, hpack]
    change (tile.toNat * 64 + parent.toNat) >>> 6 = tile.toNat
    rw [Nat.shiftRight_eq_div_pow]
    omega
  · rw [UInt16.toNat_toUInt8, UInt16.toNat_and, hpack]
    change ((tile.toNat * 64 + parent.toNat) &&& 63) % 256 = parent.toNat
    rw [hmask]
    omega

end Node

namespace Search

/-- The tables at a moment of the loop, and how many turns have been begun: between turns, when an entry has been
taken, and while some neighbours of a node have been looked at. -/
inductive Moment (q : Query) (start : Tile) : Nat → Search → Prop
  | between {n : Nat} {s : Search} (h : After q start n s) : Moment q start n s
  | taken {n : Nat} {s : Search} {e : Entry} {rest : List Entry} (h : After q start n s)
    (hn : n < q.config.maxIterations.toNat) (hw : s.waiting = e :: rest) :
    Moment q start (n + 1) ⟨s.nodes,rest,s.closed⟩
  | looking {n : Nat} {s s' : Search} {e : Entry} {rest : List Entry} {p : Node} {ds : List Direction}
    (h : After q start n s) (hn : n < q.config.maxIterations.toNat) (hw : s.waiting = e :: rest)
    (hp : s.nodes[e.node.toNat]? = some p) (hc : p.tile ∉ s.closed)
    (hgoal : p.tile.toNat ≠ q.grid.index q.goal) (hds : ds <+: q.config.directions)
    (hf : ds.foldlM (visit q e.node p (q.tileOf p)) ⟨s.nodes,rest,p.tile :: s.closed⟩ = .ok s') :
    Moment q start (n + 1) s'

/-- All that is stored fits the fixed sizes, and so do the sums made of it. -/
structure WithinTables (q : Query) (s : Search) : Prop where
  nodes_le : s.nodes.length ≤ 64
  distinct : (s.nodes.map Node.tile).Nodup
  waiting_le : s.waiting.length ≤ 128
  waiting_node : ∀ e ∈ s.waiting, e.node.toNat < s.nodes.length
  closed_word : ∀ tile ∈ s.closed, (tile >>> 5).toNat < 32
  tile_lt : ∀ n ∈ s.nodes, n.tile.toNat < q.grid.tileCount ∧ n.tile.toNat < 1024
  parent_lt : ∀ n ∈ s.nodes, n.parent.toNat < s.nodes.length ∧ n.parent.toNat < 64
  unpack_pack : ∀ n ∈ s.nodes, Node.unpack (Node.pack n.tile n.parent) = (n.tile,n.parent)
  total_eq : ∀ n ∈ s.nodes,
    n.total.toNat = n.cost.toNat + q.config.heuristic.estimate (q.tileOf n) q.goal
  sum_lt : ∀ n ∈ s.nodes, ∀ t, q.grid.contains t = true →
    n.cost.toNat + (q.grid.weight t).toNat + q.config.heuristic.estimate t q.goal < 65536

/-- What the guards of a write keep: no more entries wait than there is room for, and parents are nodes. -/
structure Guarded (s : Search) : Prop where
  waiting_le : s.waiting.length ≤ maxWaiting
  parent_lt : ∀ n ∈ s.nodes, n.parent.toNat < s.nodes.length

variable {q : Query} {start : Tile} {s s' : Search} {n : Nat} {current : UInt8} {p : Node}

theorem length_insertEntry (e : Entry) (es : List Entry) :
    (insertEntry e es).length = es.length + 1 := by
  induction es with
  | nil => rfl
  | cons a es ih =>
    rw [insertEntry]
    split_ifs
    · rw [List.length_cons, ih, List.length_cons]
    · rfl

theorem length_le_enter (s : Search) (slot : Nat) (m : Node) :
    s.nodes.length ≤ (s.enter slot m).nodes.length := by
  rw [enter]
  dsimp only
  split_ifs <;> simp

theorem mem_enter {slot : Nat} {m a : Node} (h : a ∈ (s.enter slot m).nodes) : a = m ∨ a ∈ s.nodes := by
  rw [enter] at h
  dsimp only at h
  split_ifs at h
  · exact (List.mem_or_eq_of_mem_set h).symm
  · rcases List.mem_append.mp h with h | h
    · exact .inr h
    · exact .inl (List.mem_singleton.mp h)

/-- Reaching a tile leaves the tables, or lets a node with the given parent wait where there is room. -/
theorem reach_cases {next : Tile} {cost : UInt16} (h : s.reach q current next cost = .ok s') :
    s' = s ∨ ∃ slot m, m.parent = current ∧ s.waiting.length ≠ maxWaiting ∧ s' = s.enter slot m := by
  unfold reach at h
  dsimp only at h
  split at h
  · split_ifs at h with hcost hfull
    · exact .inl (Except.ok.inj h).symm
    · exact .inr ⟨_,_,rfl,hfull,(Except.ok.inj h).symm⟩
  · split_ifs at h with hnodes hfull
    exact .inr ⟨_,_,rfl,hfull,(Except.ok.inj h).symm⟩

theorem Guarded.enter (h : s.Guarded) (slot : Nat) {m : Node} (hroom : s.waiting.length ≠ maxWaiting)
    (hparent : m.parent.toNat < s.nodes.length) : (s.enter slot m).Guarded where
  waiting_le := by
    have hle := h.waiting_le
    change (insertEntry _ s.waiting).length ≤ maxWaiting
    rw [length_insertEntry]
    omega
  parent_lt a ha := by
    have hgrow := length_le_enter s slot m
    rcases mem_enter ha with rfl | ha
    · omega
    · have hlt := h.parent_lt a ha
      omega

theorem Guarded.visit (hg : q.grid.IsSized) (h : s.Guarded) (hcurrent : current.toNat < s.nodes.length)
    {t : Tile} {d : Direction} (hv : visit q current p t s d = .ok s') :
    s'.Guarded ∧ current.toNat < s'.nodes.length := by
  rw [visit_eq hg] at hv
  split_ifs at hv
  · cases hv
    exact ⟨h,hcurrent⟩
  · rcases reach_cases hv with rfl | ⟨slot,m,rfl,hroom,rfl⟩
    · exact ⟨h,hcurrent⟩
    · exact ⟨h.enter slot hroom hcurrent,Nat.lt_of_lt_of_le hcurrent (length_le_enter s slot m)⟩
  · cases hv
    exact ⟨h,hcurrent⟩

theorem Guarded.foldlM_visit (hg : q.grid.IsSized) (h : s.Guarded) (hcurrent : current.toNat < s.nodes.length)
    {t : Tile} {ds : List Direction} (hf : ds.foldlM (Search.visit q current p t) s = .ok s') : s'.Guarded := by
  induction ds generalizing s with
  | nil =>
    cases hf
    exact h
  | cons d ds ih =>
    rw [List.foldlM_cons] at hf
    cases hv : Search.visit q current p t s d with
    | error err =>
      rw [hv] at hf
      cases hf
    | ok next =>
      rw [hv] at hf
      obtain ⟨hnext,hcurrent⟩ := h.visit hg hcurrent hv
      exact ih hnext hcurrent hf

theorem Guarded.take (h : s.Guarded) {e : Entry} {rest : List Entry} (hw : s.waiting = e :: rest)
    (closed : List UInt16) : (Search.mk s.nodes rest closed).Guarded where
  waiting_le := by
    have hle := h.waiting_le
    rw [hw, List.length_cons] at hle
    change rest.length ≤ maxWaiting
    omega
  parent_lt := h.parent_lt

theorem After.guarded (hg : q.grid.IsSized) (h : After q start n s) : s.Guarded := by
  induction h with
  | initial => exact ⟨by simp [Search.initial, maxWaiting],by simp [Search.initial]⟩
  | skip _ _ hw _ _ ih => exact ih.take hw _
  | @expand _ s _ e rest p _ _ hw hp _ _ he ih =>
    rw [expand_eq hg] at he
    exact (ih.take hw (p.tile :: s.closed)).foldlM_visit hg (List.getElem?_eq_some_iff.mp hp).1 he

/-- Sound tables that were written under guard keep within their sizes. -/
theorem IsSound.withinTables (hg : q.grid.IsSized) (hgoal : q.grid.contains q.goal = true)
    (hs : s.IsSound q start) (hguard : s.Guarded) : s.WithinTables q := by
  have htile (m : Node) (hm : m ∈ s.nodes) : m.tile.toNat < q.grid.tileCount ∧ m.tile.toNat < 1024 := by
    obtain ⟨k,hk⟩ := List.getElem?_of_mem hm
    obtain ⟨t,ht,hplace⟩ := hs.tile hk
    have hcontains := Grid.contains_of_isWalkable ht
    rw [hplace, hg.toNat_place hcontains]
    exact ⟨Grid.index_lt hcontains,Nat.lt_of_lt_of_le (Grid.index_lt hcontains) hg.tileCount_le⟩
  have hparent (m : Node) (hm : m ∈ s.nodes) : m.parent.toNat < s.nodes.length ∧ m.parent.toNat < 64 :=
    ⟨hguard.parent_lt m hm,Nat.lt_of_lt_of_le (hguard.parent_lt m hm) hs.size⟩
  refine ⟨hs.size,?_,hguard.waiting_le,fun e he => ?_,fun tile htile' => ?_,htile,hparent,
    fun m hm => Node.unpack_pack (htile m hm).2 (hparent m hm).2,fun m hm => ?_,fun m hm t ht => ?_⟩
  · rw [List.Nodup, List.pairwise_map, List.pairwise_iff_getElem]
    intro i j hi hj hlt he
    exact Nat.ne_of_lt hlt (hs.distinct (List.getElem?_eq_getElem hi) (List.getElem?_eq_getElem hj) he)
  · obtain ⟨m,hm,-⟩ := hs.entry e he
    exact (List.getElem?_eq_some_iff.mp hm).1
  · obtain ⟨m,hm,rfl⟩ := hs.closed_known tile htile'
    have hlt := (htile m hm).2
    rw [UInt16.toNat_shiftRight]
    change m.tile.toNat >>> 5 < 32
    rw [Nat.shiftRight_eq_div_pow]
    omega
  · obtain ⟨k,hk⟩ := List.getElem?_of_mem hm
    exact hs.total hk
  · obtain ⟨k,hk⟩ := List.getElem?_of_mem hm
    have hcost := hs.cost_le hk
    have hclosed : s.closed.length ≤ 64 := hs.closed_length_le
    have hweight := (q.grid.weight t).toNat_lt
    have hestimate := hg.estimate_le q.config.heuristic ht hgoal
    omega

theorem WithinTables.take (h : s.WithinTables q) {e : Entry} {rest : List Entry} (hw : s.waiting = e :: rest) :
    (Search.mk s.nodes rest s.closed).WithinTables q where
  nodes_le := h.nodes_le
  distinct := h.distinct
  waiting_le := by
    have hle := h.waiting_le
    rw [hw, List.length_cons] at hle
    exact Nat.le_of_succ_le hle
  waiting_node a ha := h.waiting_node a (hw ▸ List.mem_cons_of_mem e ha)
  closed_word := h.closed_word
  tile_lt := h.tile_lt
  parent_lt := h.parent_lt
  unpack_pack := h.unpack_pack
  total_eq := h.total_eq
  sum_lt := h.sum_lt

/-- At every moment what is stored fits, and the turns that were begun are within the budget. -/
theorem Moment.withinTables (hg : q.grid.IsSized) (h : Moment q start n s) :
    n ≤ q.config.maxIterations.toNat ∧ s.WithinTables q := by
  have hafter {m : Nat} {s : Search} (h : After q start m s) : s.WithinTables q :=
    (h.reachable.isSound hg).withinTables hg (Grid.contains_of_isWalkable h.reachable.isPosed.goal_walkable)
      (h.guarded hg)
  cases h with
  | between h => exact ⟨h.turns_le,hafter h⟩
  | taken h hn hw => exact ⟨hn,(hafter h).take hw⟩
  | @looking _ s _ e rest p _ h hn hw hp hc _ hds hf =>
    have hs := h.reachable.isSound hg
    have hgoal := Grid.contains_of_isWalkable h.reachable.isPosed.goal_walkable
    have hguard := (h.guarded hg).take hw (p.tile :: s.closed)
    obtain ⟨hexpands,-⟩ := hs.looking_induction hg hgoal (motive := fun _ _ => True) hw hp hc trivial
      (fun _ _ => trivial) (fun _ _ _ _ _ => trivial) hds.subset hf
    exact ⟨hn,hexpands.sound.withinTables hg hgoal
      (hguard.foldlM_visit hg (List.getElem?_eq_some_iff.mp hp).1 hf)⟩

end Search

/-- The loop ends, and so does following parents back from the goal. -/
theorem exists_outcome {g : Grid} (hg : g.IsSized) (start goal : Tile) (c : Config) :
    ∃ outcome, search g start goal c = some outcome := by
  rcases search_cases hg start goal c with ⟨hsearch,-⟩ | ⟨hsearch,-⟩ | ⟨s,result,hs,hends,hsearch⟩
  · exact ⟨_,hsearch⟩
  · exact ⟨_,hsearch⟩
  · rw [hsearch]
    cases hends with
    | noPath | budgetExhausted | tableFull => exact ⟨_,rfl⟩
    | found _ hp =>
      obtain ⟨path,htrace,-⟩ := hs.exists_trace hg hp
      rw [htrace]
      exact ⟨_,rfl⟩

/-- On a valid grid a search has an answer, and no tile of any coordinates is looked up outside a layer. Its loop, where
it comes to one, stops on tables that it reaches within its budget; and at every moment until then all that is stored
fits the fixed sizes, is read back from its word, and makes sums that do not wrap. -/
theorem search_stays_within_tables {g : Grid} (hvalid : g.validate = .ok ()) (start goal : Tile) (c : Config) :
    (∃ outcome, search g start goal c = some outcome) ∧
      (∀ t, (∃ on, g.isWalkable? t = some on) ∧ ∃ w, g.weight? t = some w) ∧
      (Query.IsPosed ⟨g,c,goal⟩ start → ∃ n s, Search.After ⟨g,c,goal⟩ start n s ∧
        Search.Ends ⟨g,c,goal⟩ s
          (Search.run ⟨g,c,goal⟩ c.maxIterations.toNat (Search.initial ⟨g,c,goal⟩ start))) ∧
      ∀ n s, Search.Moment ⟨g,c,goal⟩ start n s →
        n ≤ c.maxIterations.toNat ∧ s.WithinTables ⟨g,c,goal⟩ := by
  have hg := Grid.isSized_of_validate hvalid
  exact ⟨exists_outcome hg start goal c,fun t => ⟨⟨_,hg.isWalkable?_eq t⟩,_,hg.weight?_eq t⟩,
    Search.exists_after_ends hg,fun n s h => h.withinTables hg⟩

def pondQuery : Query := ⟨pondGrid,{ diagonal := true },⟨2,0⟩⟩

theorem pondQuery_stays_within_tables :
    ∃ s, Search.Moment pondQuery ⟨0,0⟩ 1 s ∧ s.nodes.length = 3 ∧ s.WithinTables pondQuery := by
  have hposed : pondQuery.IsPosed ⟨0,0⟩ := ⟨by decide,by decide,by decide⟩
  obtain ⟨s,hf⟩ : ∃ s, (Direction.eight.take 6).foldlM (Search.visit pondQuery 0 ⟨0,0,0,2⟩ ⟨0,0⟩)
      ⟨[⟨0,0,0,2⟩],[],[0]⟩ = .ok s := ⟨_,rfl⟩
  have hmoment : Search.Moment pondQuery ⟨0,0⟩ 1 s :=
    .looking (.initial hposed) (by decide) rfl rfl (by decide) (by decide) (List.take_prefix 6 _) hf
  refine ⟨s,hmoment,?_,((search_stays_within_tables (by decide) _ _ _).2.2.2 _ s hmoment).2⟩
  cases hf
  rfl

end Cartridge.Nav
