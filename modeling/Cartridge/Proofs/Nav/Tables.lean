import Mathlib.Data.List.Perm.Subperm
import Mathlib.Tactic.Common
import Cartridge.Proofs.Nav.Walk

/-!
What holds of the tables throughout a search: each node is a tile reached from a closed node, closed
nodes are never written again, and every node that is not closed waits with its own estimate. One look
at a neighbour is either without effect or enters one node.
-/
namespace Cartridge.Nav

def Query.tileOf (q : Query) (n : Node) : Tile := q.grid.tileAt n.tile.toNat

theorem Query.tileOf_eq {q : Query} (hg : q.grid.IsSized) {n : Node} {t : Tile}
    (ht : q.grid.isWalkable t = true) (hn : n.tile = q.grid.place t) : q.tileOf n = t := by
  rw [tileOf, hn, hg.tileAt_place (Grid.contains_of_isWalkable ht)]

namespace Search

/-- The tables of a search from a tile are consistent. -/
structure IsSound (q : Query) (start : Tile) (s : Search) : Prop where
  first : ∃ n, s.nodes[0]? = some n ∧ n.tile = q.grid.place start ∧ n.cost = 0
  size : s.nodes.length ≤ maxNodes
  tile : ∀ {k : Nat} {n : Node}, s.nodes[k]? = some n →
    ∃ t, q.grid.isWalkable t = true ∧ n.tile = q.grid.place t
  distinct : ∀ {j k : Nat} {m n : Node}, s.nodes[j]? = some m → s.nodes[k]? = some n →
    m.tile = n.tile → j = k
  total : ∀ {k : Nat} {n : Node}, s.nodes[k]? = some n →
    n.total.toNat = n.cost.toNat + q.config.heuristic.estimate (q.tileOf n) q.goal
  cost_le : ∀ {k : Nat} {n : Node}, s.nodes[k]? = some n → n.cost.toNat ≤ 255 * s.closed.length
  parent : ∀ {k : Nat} {n : Node}, s.nodes[k + 1]? = some n → ∃ p, s.nodes[n.parent.toNat]? = some p ∧
    p.tile ∈ s.closed ∧ q.grid.Step q.config.diagonal (q.tileOf p) (q.tileOf n) ∧
    n.cost.toNat = p.cost.toNat + (q.grid.weight (q.tileOf n)).toNat
  closed_nodup : s.closed.Nodup
  closed_known : ∀ c ∈ s.closed, ∃ n ∈ s.nodes, n.tile = c
  alive : ∀ {k : Nat} {n : Node}, s.nodes[k]? = some n →
    n.tile ∈ s.closed ∨ ⟨n.total,.ofNat k⟩ ∈ s.waiting
  entry : ∀ e ∈ s.waiting, ∃ n, s.nodes[e.node.toNat]? = some n ∧ n.total.toNat ≤ e.total.toNat
  sorted : s.waiting.Pairwise (·.total.toNat ≤ ·.total.toNat)

/-- A node that may be written at a slot: new or cheaper than the node there, not closed, and reached
from a closed node. -/
structure Offers (q : Query) (s : Search) (slot : Nat) (n : Node) : Prop where
  slot_lt : slot < maxNodes
  slot_le : slot ≤ s.nodes.length
  tile : ∃ t, q.grid.isWalkable t = true ∧ n.tile = q.grid.place t
  own : ∀ {k : Nat} {m : Node}, s.nodes[k]? = some m → (m.tile = n.tile ↔ k = slot)
  unclosed : n.tile ∉ s.closed
  cheaper : ∀ {m : Node}, s.nodes[slot]? = some m → n.cost.toNat < m.cost.toNat
  total : n.total.toNat = n.cost.toNat + q.config.heuristic.estimate (q.tileOf n) q.goal
  cost_le : n.cost.toNat ≤ 255 * s.closed.length
  parent : ∃ p, s.nodes[n.parent.toNat]? = some p ∧ p.tile ∈ s.closed ∧
    q.grid.Step q.config.diagonal (q.tileOf p) (q.tileOf n) ∧
    n.cost.toNat = p.cost.toNat + (q.grid.weight (q.tileOf n)).toNat

theorem mem_insertEntry {a e : Entry} {es : List Entry} :
    a ∈ insertEntry e es ↔ a = e ∨ a ∈ es := by
  induction es with
  | nil => simp [insertEntry]
  | cons b es ih =>
    rw [insertEntry]
    split_ifs
    · simp only [List.mem_cons, ih]
      tauto
    · simp

private theorem total_le_of_before {a e : Entry} (h : a.before e = true) :
    a.total.toNat ≤ e.total.toNat := by
  simp only [Entry.before, Bool.or_eq_true, decide_eq_true_eq, Bool.and_eq_true] at h
  rcases h with h | ⟨h,-⟩
  · exact Nat.le_of_lt (UInt16.lt_iff_toNat_lt.mp h)
  · exact Nat.le_of_eq (by rw [h])

private theorem total_le_of_not_before {a e : Entry} (h : ¬a.before e = true) :
    e.total.toNat ≤ a.total.toNat := by
  simp only [Entry.before, Bool.or_eq_true, decide_eq_true_eq, not_or] at h
  exact Nat.le_of_not_lt fun hlt => h.1 (UInt16.lt_iff_toNat_lt.mpr hlt)

theorem sorted_insertEntry {e : Entry} {es : List Entry}
    (h : es.Pairwise (·.total.toNat ≤ ·.total.toNat)) :
    (insertEntry e es).Pairwise (·.total.toNat ≤ ·.total.toNat) := by
  induction es with
  | nil => simp [insertEntry]
  | cons a es ih =>
    obtain ⟨ha,hes⟩ := List.pairwise_cons.mp h
    rw [insertEntry]
    split_ifs with hb
    · refine List.pairwise_cons.mpr ⟨fun b hb' => ?_,ih hes⟩
      rcases mem_insertEntry.mp hb' with rfl | hb'
      · exact total_le_of_before hb
      · exact ha b hb'
    · have hea := total_le_of_not_before hb
      refine List.pairwise_cons.mpr ⟨fun b hb' => ?_,h⟩
      rcases List.mem_cons.mp hb' with rfl | hb'
      · exact hea
      · exact Nat.le_trans hea (ha b hb')

/-- Entering a node writes one slot. -/
theorem enter_getElem? {s : Search} {slot : Nat} (n : Node) (h : slot ≤ s.nodes.length) (k : Nat) :
    (s.enter slot n).nodes[k]? = if k = slot then some n else s.nodes[k]? := by
  simp only [enter]
  split_ifs with hlt hk hk
  · rw [hk, List.getElem?_set_self hlt]
  · rw [List.getElem?_set_ne (Ne.symm hk)]
  · obtain rfl : k = s.nodes.length := by omega
    rw [List.getElem?_concat_length]
  · obtain rfl : slot = s.nodes.length := by omega
    rcases Nat.lt_or_ge k s.nodes.length with hlt' | hge
    · rw [List.getElem?_append_left hlt']
    · rw [List.getElem?_eq_none (by simp; omega), List.getElem?_eq_none hge]

variable {q : Query} {start : Tile} {s : Search} {slot : Nat} {n : Node}

theorem Offers.enter_length (h : s.Offers q slot n) (hsize : s.nodes.length ≤ maxNodes) :
    (s.enter slot n).nodes.length ≤ maxNodes := by
  have hlt := h.slot_lt
  have hle := h.slot_le
  simp only [enter]
  split_ifs
  · simpa using hsize
  · simp only [List.length_append, List.length_singleton]
    omega

/-- The node at a slot after entering one: it, or one that was there. -/
theorem Offers.enter_cases (h : s.Offers q slot n) {k : Nat} {m : Node}
    (hk : (s.enter slot n).nodes[k]? = some m) : (k = slot ∧ m = n) ∨ (k ≠ slot ∧ s.nodes[k]? = some m) := by
  rw [enter_getElem? n h.slot_le] at hk
  split_ifs at hk with he
  · exact .inl ⟨he,(Option.some.inj hk).symm⟩
  · exact .inr ⟨he,hk⟩

/-- Closed nodes are not written again. -/
theorem Offers.frozen (h : s.Offers q slot n) {k : Nat} {m : Node} (hk : s.nodes[k]? = some m)
    (hm : m.tile ∈ s.closed) : (s.enter slot n).nodes[k]? = some m := by
  rw [enter_getElem? n h.slot_le, if_neg, hk]
  intro he
  have htile := (h.own hk).mpr he
  exact h.unclosed (htile ▸ hm)

theorem Offers.enter_self (h : s.Offers q slot n) : (s.enter slot n).nodes[slot]? = some n := by
  rw [enter_getElem? n h.slot_le, if_pos rfl]

/-- The estimate of the whole way falls with the cost. -/
theorem Offers.total_lt (h : s.Offers q slot n) (hs : s.IsSound q start) {m : Node}
    (hm : s.nodes[slot]? = some m) : n.total.toNat < m.total.toNat := by
  have htile : m.tile = n.tile := (h.own hm).mpr rfl
  have hcost := h.cheaper hm
  rw [h.total, hs.total hm, Query.tileOf, Query.tileOf, htile]
  omega

theorem Offers.toNat_slot (h : s.Offers q slot n) : (UInt8.ofNat slot).toNat = slot := by
  have hlt : slot < 64 := h.slot_lt
  rw [UInt8.toNat_ofNat']
  omega

/-- Entering a node keeps the tables sound. -/
theorem IsSound.enter (hs : s.IsSound q start) (h : s.Offers q slot n) :
    (s.enter slot n).IsSound q start where
  first := by
    obtain ⟨m,hm,htile,hcost⟩ := hs.first
    refine ⟨m,?_,htile,hcost⟩
    rw [enter_getElem? n h.slot_le, if_neg, hm]
    rintro rfl
    have hlt := h.cheaper hm
    rw [hcost] at hlt
    cases hlt
  size := h.enter_length hs.size
  tile hk := by
    rcases h.enter_cases hk with ⟨-,rfl⟩ | ⟨-,hk⟩
    · exact h.tile
    · exact hs.tile hk
  distinct hj hk he := by
    rcases h.enter_cases hj with ⟨hjs,hjn⟩ | ⟨hjne,hj⟩
    · rcases h.enter_cases hk with ⟨hks,-⟩ | ⟨hkne,hk⟩
      · rw [hjs, hks]
      · exact absurd ((h.own hk).mp (he.symm.trans (congrArg Node.tile hjn))) hkne
    · rcases h.enter_cases hk with ⟨-,hkn⟩ | ⟨-,hk⟩
      · exact absurd ((h.own hj).mp (he.trans (congrArg Node.tile hkn))) hjne
      · exact hs.distinct hj hk he
  total hk := by
    rcases h.enter_cases hk with ⟨-,rfl⟩ | ⟨-,hk⟩
    · exact h.total
    · exact hs.total hk
  cost_le hk := by
    rcases h.enter_cases hk with ⟨-,rfl⟩ | ⟨-,hk⟩
    · exact h.cost_le
    · exact hs.cost_le hk
  parent hk := by
    rcases h.enter_cases hk with ⟨-,rfl⟩ | ⟨-,hk⟩
    · obtain ⟨p,hp,hclosed,hstep,hcost⟩ := h.parent
      exact ⟨p,h.frozen hp hclosed,hclosed,hstep,hcost⟩
    · obtain ⟨p,hp,hclosed,hstep,hcost⟩ := hs.parent hk
      exact ⟨p,h.frozen hp hclosed,hclosed,hstep,hcost⟩
  closed_nodup := hs.closed_nodup
  closed_known c hc := by
    obtain ⟨m,hm,htile⟩ := hs.closed_known c hc
    obtain ⟨k,hk⟩ := List.getElem?_of_mem hm
    have hfrozen := h.frozen hk (htile ▸ hc)
    exact ⟨m,List.mem_of_getElem? hfrozen,htile⟩
  alive hk := by
    rcases h.enter_cases hk with ⟨rfl,rfl⟩ | ⟨-,hk⟩
    · exact .inr (mem_insertEntry.mpr (.inl rfl))
    · rcases hs.alive hk with hclosed | hwaiting
      · exact .inl hclosed
      · exact .inr (mem_insertEntry.mpr (.inr hwaiting))
  entry e he := by
    rcases mem_insertEntry.mp he with rfl | he
    · exact ⟨n,by rw [h.toNat_slot, h.enter_self],Nat.le_refl _⟩
    · obtain ⟨m,hm,hle⟩ := hs.entry e he
      by_cases hslot : e.node.toNat = slot
      · rw [hslot] at hm ⊢
        have hlt := h.total_lt hs hm
        exact ⟨n,h.enter_self,by omega⟩
      · refine ⟨m,?_,hle⟩
        rw [enter_getElem? n h.slot_le, if_neg hslot, hm]
  sorted := sorted_insertEntry hs.sorted

/-- Tiles that all have nodes are no more than the nodes. -/
theorem length_le_of_known {closed : List UInt16} (hnodup : closed.Nodup)
    (hknown : ∀ c ∈ closed, ∃ m ∈ s.nodes, m.tile = c) : closed.length ≤ s.nodes.length := by
  have hsub : closed ⊆ s.nodes.map Node.tile := by
    intro c hc
    obtain ⟨m,hm,htile⟩ := hknown c hc
    exact List.mem_map.mpr ⟨m,hm,htile⟩
  have hle := (List.subperm_of_subset hnodup hsub).length_le
  rwa [List.length_map] at hle

theorem IsSound.closed_length_le (hs : s.IsSound q start) : s.closed.length ≤ maxNodes :=
  Nat.le_trans (length_le_of_known hs.closed_nodup hs.closed_known) hs.size

/-- A sound search in the middle of expanding a closed node. -/
structure Expands (q : Query) (start : Tile) (current : UInt8) (p : Node) (s : Search) : Prop where
  sound : s.IsSound q start
  here : s.nodes[current.toNat]? = some p
  closed : p.tile ∈ s.closed
  cost_lt : p.cost.toNat + 255 ≤ 255 * s.closed.length

theorem Expands.enter {current : UInt8} {p : Node} (h : s.Expands q start current p)
    (ho : s.Offers q slot n) : (s.enter slot n).Expands q start current p :=
  ⟨h.sound.enter ho,ho.frozen h.here h.closed,h.closed,h.cost_lt⟩

theorem IsSound.isWalkable_tileOf (hg : q.grid.IsSized) (hs : s.IsSound q start) {k : Nat}
    (hk : s.nodes[k]? = some n) : q.grid.isWalkable (q.tileOf n) = true := by
  obtain ⟨t,ht,htile⟩ := hs.tile hk
  rwa [Query.tileOf_eq hg ht htile]

/-- What a look at a tile beside an expanded node can do. -/
inductive Visited (q : Query) (p : Node) (next : Tile) (s : Search) : Search → Prop
  | closed (h : q.grid.place next ∈ s.closed) : Visited q p next s s
  | kept {k : Nat} {m : Node} (hm : s.nodes[k]? = some m) (ht : m.tile = q.grid.place next)
    (hc : m.cost.toNat ≤ p.cost.toNat + (q.grid.weight next).toNat) : Visited q p next s s
  | entered {slot : Nat} {n : Node} (h : s.Offers q slot n) (ht : n.tile = q.grid.place next)
    (hc : n.cost.toNat = p.cost.toNat + (q.grid.weight next).toNat) :
    Visited q p next s (s.enter slot n)

theorem isClosed?_eq (hg : q.grid.IsSized) {t : Tile} (ht : q.grid.isWalkable t = true) (s : Search) :
    s.isClosed? (q.grid.place t) = some (s.closed.contains (q.grid.place t)) := by
  rw [isClosed?, if_pos (hg.place_lt (Grid.contains_of_isWalkable ht))]

/-- On a sized grid a look at a neighbour is one choice out of three. -/
theorem visit_eq (hg : q.grid.IsSized) (current : UInt8) (p : Node) (t : Tile) (s : Search)
    (d : Direction) :
    visit q current p t s d =
      if q.grid.allows t d = true then
        if q.grid.place (d.apply t) ∈ s.closed then .ok s
        else s.reach q current (d.apply t) (p.cost + (q.grid.weight (d.apply t)).toUInt16)
      else .ok s := by
  by_cases hallows : q.grid.allows t d = true
  · have hclosed := isClosed?_eq hg (Bool.and_eq_true_iff.mp hallows).1 s
    rw [Grid.place] at hclosed ⊢
    by_cases hmem : UInt16.ofNat (q.grid.index (d.apply t)) ∈ s.closed
    · simp [visit, hg.canStep?_eq, Halt.ofOption, bind, Except.bind, pure, Except.pure, hallows,
        hclosed, hmem]
    · simp [visit, hg.canStep?_eq, hg.weight?_eq, Halt.ofOption, bind, Except.bind, hallows, hclosed,
        hmem]
  · simp [visit, hg.canStep?_eq, Halt.ofOption, bind, Except.bind, pure, Except.pure, hallows]

def nodeFrom (q : Query) (current : UInt8) (p : Node) (next : Tile) : Node :=
  { tile := q.grid.place next, parent := current, cost := p.cost + (q.grid.weight next).toUInt16,
    total := p.cost + (q.grid.weight next).toUInt16 + .ofNat (q.config.heuristic.estimate next q.goal) }

/-- The table is too small for a sum to leave its word. -/
theorem Expands.nodeFrom_cost {current : UInt8} {p : Node} (h : s.Expands q start current p)
    (next : Tile) :
    (nodeFrom q current p next).cost.toNat = p.cost.toNat + (q.grid.weight next).toNat := by
  have hlen : s.closed.length ≤ 64 := h.sound.closed_length_le
  have hlt := h.cost_lt
  have hw := (q.grid.weight next).toNat_lt
  rw [nodeFrom, UInt16.toNat_add, UInt8.toNat_toUInt16]
  omega

theorem Expands.nodeFrom_total (hg : q.grid.IsSized) (hgoal : q.grid.contains q.goal = true)
    {current : UInt8} {p : Node} (h : s.Expands q start current p) {next : Tile}
    (hnext : q.grid.contains next = true) :
    (nodeFrom q current p next).total.toNat =
      (nodeFrom q current p next).cost.toNat + q.config.heuristic.estimate next q.goal := by
  have hlen : s.closed.length ≤ 64 := h.sound.closed_length_le
  have hlt := h.cost_lt
  have hw := (q.grid.weight next).toNat_lt
  have hest := hg.estimate_le q.config.heuristic hnext hgoal
  have hcost := h.nodeFrom_cost next
  simp only [nodeFrom] at hcost ⊢
  rw [UInt16.toNat_add, hcost, UInt16.toNat_ofNat']
  omega

theorem Expands.offers (hg : q.grid.IsSized) (hgoal : q.grid.contains q.goal = true)
    {current : UInt8} {p : Node} (h : s.Expands q start current p) {next : Tile}
    (hstep : q.grid.Step q.config.diagonal (q.tileOf p) next)
    (hclosed : q.grid.place next ∉ s.closed) (slot : Nat) (hlt : slot < maxNodes)
    (hle : slot ≤ s.nodes.length)
    (hown : ∀ {k : Nat} {m : Node}, s.nodes[k]? = some m → (m.tile = q.grid.place next ↔ k = slot))
    (hcheaper : ∀ {m : Node}, s.nodes[slot]? = some m →
      (nodeFrom q current p next).cost.toNat < m.cost.toNat) :
    s.Offers q slot (nodeFrom q current p next) := by
  have hcontains := Grid.contains_of_isWalkable hstep.walkable
  have hcost := h.nodeFrom_cost next
  have htile : q.tileOf (nodeFrom q current p next) = next := q.tileOf_eq hg hstep.walkable rfl
  have hbound := h.cost_lt
  have hw := (q.grid.weight next).toNat_lt
  refine ⟨hlt,hle,⟨next,hstep.walkable,rfl⟩,hown,hclosed,hcheaper,?_,by omega,p,h.here,h.closed,?_,?_⟩
  · rw [htile]
    exact h.nodeFrom_total hg hgoal hcontains
  · rwa [htile]
  · rwa [htile]

/-- Reaching a tile that is not closed leaves a node that is no dearer, or enters a better one. -/
theorem Expands.reach_cases (hg : q.grid.IsSized) (hgoal : q.grid.contains q.goal = true)
    {current : UInt8} {p : Node} (h : s.Expands q start current p) {next : Tile}
    (hstep : q.grid.Step q.config.diagonal (q.tileOf p) next)
    (hclosed : q.grid.place next ∉ s.closed) {s' : Search}
    (hr : s.reach q current next (p.cost + (q.grid.weight next).toUInt16) = .ok s') :
    Visited q p next s s' := by
  have hcost := h.nodeFrom_cost next
  have hoffers := h.offers hg hgoal hstep hclosed
  unfold reach at hr
  cases hfind : s.nodes.findIdx? (fun n => n.tile = UInt16.ofNat (q.grid.index next)) with
  | some k =>
    obtain ⟨hk,htile,-⟩ := List.findIdx?_eq_some_iff_getElem.mp hfind
    have hm : s.nodes[k]? = some s.nodes[k] := List.getElem?_eq_getElem hk
    have htile : s.nodes[k].tile = q.grid.place next := of_decide_eq_true htile
    simp only [hfind, hm, Option.map_some, Option.getD_some] at hr
    split_ifs at hr with hle
    · cases hr
      have hle := UInt16.le_iff_toNat_le.mp hle
      exact .kept hm htile (hcost ▸ hle)
    · cases hr
      refine .entered (hoffers k (Nat.lt_of_lt_of_le hk h.sound.size) (Nat.le_of_lt hk) ?_ ?_) rfl hcost
      · intro j m hj
        constructor
        · intro he
          exact h.sound.distinct hj hm (he.trans htile.symm)
        · rintro rfl
          rw [hm] at hj
          cases hj
          exact htile
      · intro m hj
        rw [hm] at hj
        cases hj
        exact Nat.lt_of_not_le fun hge => hle (UInt16.le_iff_toNat_le.mpr hge)
  | none =>
    simp only [hfind] at hr
    split_ifs at hr with hfull
    cases hr
    have hlt : s.nodes.length < maxNodes := Nat.lt_of_le_of_ne h.sound.size hfull
    refine .entered (hoffers _ hlt (Nat.le_refl _) ?_ ?_) rfl hcost
    · intro k m hm
      have hall := List.findIdx?_eq_none_iff.mp hfind m (List.mem_of_getElem? hm)
      have hk := (List.getElem?_eq_some_iff.mp hm).1
      exact ⟨fun he => absurd he (of_decide_eq_false hall),fun he => by omega⟩
    · intro m hm
      have hk := (List.getElem?_eq_some_iff.mp hm).1
      omega

/-- What a look at a neighbour in a direction does, if it does not fill the table. -/
theorem Expands.visit_cases (hg : q.grid.IsSized) (hgoal : q.grid.contains q.goal = true)
    {current : UInt8} {p : Node} (h : s.Expands q start current p) {d : Direction}
    (hd : d ∈ q.config.directions) {s' : Search} (hv : visit q current p (q.tileOf p) s d = .ok s') :
    (q.grid.allows (q.tileOf p) d = false ∧ s' = s) ∨
      (q.grid.allows (q.tileOf p) d = true ∧ Visited q p (d.apply (q.tileOf p)) s s') := by
  rw [visit_eq hg] at hv
  split_ifs at hv with hallows hclosed
  · cases hv
    exact .inr ⟨hallows,.closed hclosed⟩
  · have hcontains := Grid.contains_of_isWalkable (h.sound.isWalkable_tileOf hg h.here)
    have hstep := (hg.step_iff hcontains q.config).mpr ⟨d,hd,hallows,rfl⟩
    exact .inr ⟨hallows,h.reach_cases hg hgoal hstep hclosed hv⟩
  · cases hv
    exact .inl ⟨by simpa using hallows,rfl⟩

/-- A step from a node, while one is expanded: the node is another one, or the step is one of the
directions looked at. -/
theorem Expands.step_cases (hg : q.grid.IsSized) {current : UInt8} {p : Node}
    (h : s.Expands q start current p) {k : Nat} (hn : s.nodes[k]? = some n) {t : Tile}
    (ht : q.grid.Step q.config.diagonal (q.tileOf n) t) :
    n.tile ≠ p.tile ∨ (n = p ∧ ∃ d ∈ q.config.directions, q.grid.allows (q.tileOf p) d = true ∧
      d.apply (q.tileOf p) = t) := by
  by_cases he : n.tile = p.tile
  · obtain rfl : k = current.toNat := h.sound.distinct hn h.here he
    obtain rfl : n = p := Option.some.inj (hn.symm.trans h.here)
    have hcontains := Grid.contains_of_isWalkable (h.sound.isWalkable_tileOf hg h.here)
    exact .inr ⟨rfl,(hg.step_iff hcontains q.config).mp ht⟩
  · exact .inl he

/-- A node for a tile is known at no more than a cost. -/
def Reaches (q : Query) (s : Search) (t : Tile) (cost : Nat) : Prop :=
  ∃ (k : Nat) (m : Node), s.nodes[k]? = some m ∧ m.tile = q.grid.place t ∧ m.cost.toNat ≤ cost

/-- What is known stays known, and gets no dearer. -/
theorem Offers.reaches (h : s.Offers q slot n) {t : Tile} {cost : Nat} (hr : s.Reaches q t cost) :
    (s.enter slot n).Reaches q t cost := by
  obtain ⟨k,m,hm,htile,hcost⟩ := hr
  by_cases hk : k = slot
  · subst hk
    have hlt := h.cheaper hm
    exact ⟨k,n,h.enter_self,((h.own hm).mpr rfl).symm.trans htile,by omega⟩
  · exact ⟨k,m,by rw [enter_getElem? n h.slot_le, if_neg hk, hm],htile,hcost⟩

theorem IsSound.toNat_index (hs : s.IsSound q start) {k : Nat} (hk : s.nodes[k]? = some n) :
    (UInt8.ofNat k).toNat = k := by
  have hlt := (List.getElem?_eq_some_iff.mp hk).1
  have hle : s.nodes.length ≤ 64 := hs.size
  rw [UInt8.toNat_ofNat']
  omega

/-- Taking the first entry away, of a node that is closed then. -/
theorem IsSound.take (hs : s.IsSound q start) {e : Entry} {rest : List Entry}
    (hw : s.waiting = e :: rest) {p : Node} (hp : s.nodes[e.node.toNat]? = some p)
    {closed : List UInt16} (hsub : s.closed ⊆ closed) (hpc : p.tile ∈ closed)
    (hnodup : closed.Nodup) (hknown : ∀ c ∈ closed, ∃ m ∈ s.nodes, m.tile = c) :
    (Search.mk s.nodes rest closed).IsSound q start where
  first := hs.first
  size := hs.size
  tile := hs.tile
  distinct := hs.distinct
  total := hs.total
  cost_le hk := by
    have hle := hs.cost_le hk
    have hlen := (List.subperm_of_subset hs.closed_nodup hsub).length_le
    change _ ≤ 255 * closed.length
    omega
  parent hk := by
    obtain ⟨m,hm,hclosed,hstep,hcost⟩ := hs.parent hk
    exact ⟨m,hm,hsub hclosed,hstep,hcost⟩
  closed_nodup := hnodup
  closed_known := hknown
  alive hk := by
    rcases hs.alive hk with hclosed | hwaiting
    · exact .inl (hsub hclosed)
    · rw [hw] at hwaiting
      rcases List.mem_cons.mp hwaiting with rfl | hwaiting
      · rw [hs.toNat_index hk, hk] at hp
        cases hp
        exact .inl hpc
      · exact .inr hwaiting
  entry a ha := hs.entry a (hw ▸ List.mem_cons_of_mem e ha)
  sorted := (List.pairwise_cons.mp (hw ▸ hs.sorted)).2

/-- An entry of a closed node is passed over. -/
theorem IsSound.skip (hs : s.IsSound q start) {e : Entry} {rest : List Entry}
    (hw : s.waiting = e :: rest) {p : Node} (hp : s.nodes[e.node.toNat]? = some p)
    (hclosed : p.tile ∈ s.closed) : (Search.mk s.nodes rest s.closed).IsSound q start :=
  hs.take hw hp (List.Subset.refl _) hclosed hs.closed_nodup hs.closed_known

/-- A node is closed when its first entry is taken. -/
theorem IsSound.close (hs : s.IsSound q start) {e : Entry} {rest : List Entry}
    (hw : s.waiting = e :: rest) {p : Node} (hp : s.nodes[e.node.toNat]? = some p)
    (hclosed : p.tile ∉ s.closed) :
    (Search.mk s.nodes rest (p.tile :: s.closed)).Expands q start e.node p where
  sound := by
    refine hs.take hw hp (List.subset_cons_self _ _) List.mem_cons_self
      (List.nodup_cons.mpr ⟨hclosed,hs.closed_nodup⟩) fun c hc => ?_
    rcases List.mem_cons.mp hc with rfl | hc
    · exact ⟨p,List.mem_of_getElem? hp,rfl⟩
    · exact hs.closed_known c hc
  here := hp
  closed := List.mem_cons_self
  cost_lt := by
    have hle := hs.cost_le hp
    simp only [List.length_cons]
    omega

/-- What holds when a node is closed, and is kept by each look at a neighbour, holds when all of them
have been looked at. -/
theorem Expands.foldlM_visit (hg : q.grid.IsSized) (hgoal : q.grid.contains q.goal = true)
    {current : UInt8} {p : Node} {motive : List Direction → Search → Prop}
    (blocked : ∀ {done s d}, motive done s → q.grid.allows (q.tileOf p) d = false → motive (d :: done) s)
    (visited : ∀ {done s s' d}, s.Expands q start current p → motive done s → d ∈ q.config.directions →
      q.grid.allows (q.tileOf p) d = true → Visited q p (d.apply (q.tileOf p)) s s' →
      motive (d :: done) s')
    {ds done : List Direction} (hds : ∀ d ∈ ds, d ∈ q.config.directions)
    (h : s.Expands q start current p) (hm : motive done s) {s' : Search}
    (hf : ds.foldlM (visit q current p (q.tileOf p)) s = .ok s') :
    s'.Expands q start current p ∧ motive (ds.reverse ++ done) s' := by
  induction ds generalizing s done with
  | nil =>
    cases hf
    exact ⟨h,hm⟩
  | cons d ds ih =>
    rw [List.foldlM_cons] at hf
    cases hv : visit q current p (q.tileOf p) s d with
    | error err =>
      rw [hv] at hf
      cases hf
    | ok next =>
      rw [hv] at hf
      have hd := hds d List.mem_cons_self
      have hrest := fun x hx => hds x (List.mem_cons_of_mem d hx)
      have hnext : next.Expands q start current p ∧ motive (d :: done) next := by
        rcases h.visit_cases hg hgoal hd hv with ⟨hblocked,rfl⟩ | ⟨hallows,hvisited⟩
        · exact ⟨h,blocked hm hblocked⟩
        · refine ⟨?_,visited h hm hd hallows hvisited⟩
          cases hvisited with
          | closed => exact h
          | kept => exact h
          | entered ho => exact h.enter ho
      have hdone := ih hrest hnext.1 hnext.2 hf
      rwa [List.reverse_cons, List.append_assoc, List.singleton_append]

theorem expand_eq (hg : q.grid.IsSized) (current : UInt8) (p : Node) (s : Search) :
    expand q current p s = q.config.directions.foldlM (visit q current p (q.tileOf p))
      ⟨s.nodes,s.waiting,p.tile :: s.closed⟩ := by
  rw [expand, hg.tileAt?_eq]
  rfl

/-- One turn of the loop: an entry is passed over, is the goal, or is expanded. -/
theorem IsSound.run_succ (hg : q.grid.IsSized) (hs : s.IsSound q start) {e : Entry}
    {rest : List Entry} (hw : s.waiting = e :: rest) {p : Node}
    (hp : s.nodes[e.node.toNat]? = some p) (budget : Nat) :
    run q (budget + 1) s =
      if p.tile ∈ s.closed then run q budget ⟨s.nodes,rest,s.closed⟩
      else if p.tile.toNat = q.grid.index q.goal then
        (Halt.ofOption (trace q.grid s.nodes s.nodes.length e.node.toNat [])).map .found
      else (expand q e.node p ⟨s.nodes,rest,s.closed⟩).bind (run q budget) := by
  obtain ⟨t,ht,htile⟩ := hs.tile hp
  have hclosed := isClosed?_eq hg ht ⟨s.nodes,rest,s.closed⟩
  rw [← htile] at hclosed
  obtain ⟨nodes,waiting,closed⟩ := s
  obtain rfl : waiting = e :: rest := hw
  simp only [run, hp, hclosed, Halt.ofOption, bind, Except.bind]
  by_cases hmem : p.tile ∈ closed
  · simp [hmem]
  · by_cases hgoal : p.tile.toNat = q.grid.index q.goal
    · simp only [List.contains_eq_mem, hmem, hgoal, decide_false, Bool.false_eq_true, if_false, if_true]
      cases trace q.grid nodes nodes.length e.node.toNat [] <;> rfl
    · simp only [List.contains_eq_mem, hmem, hgoal, decide_false, Bool.false_eq_true, if_false]

private theorem trace_first (g : Grid) (nodes : List Node) (fuel : Nat) (path : List Tile) :
    trace g nodes fuel 0 path = some path := by cases fuel <;> rfl

/-- Following parents back from a node spells a walk from the start, which costs what the node says. -/
theorem IsSound.walk_trace (hg : q.grid.IsSized) (hs : s.IsSound q start)
    (hstart : q.grid.isWalkable start = true) {fuel k : Nat} (hn : s.nodes[k]? = some n) {b : Tile}
    {path out : List Tile} (hwalk : q.grid.Walk q.config.diagonal (q.tileOf n) path b)
    (ht : trace q.grid s.nodes fuel k path = some out) :
    q.grid.Walk q.config.diagonal start out b ∧
      q.grid.cost out = n.cost.toNat + q.grid.cost path := by
  induction fuel generalizing k n path with
  | zero =>
    cases k with
    | zero =>
      obtain ⟨m,hm,htile,hcost⟩ := hs.first
      obtain rfl : m = n := Option.some.inj (hm.symm.trans hn)
      rw [q.tileOf_eq hg hstart htile] at hwalk
      rw [trace_first] at ht
      cases ht
      exact ⟨hwalk,by simp [hcost]⟩
    | succ k => cases ht
  | succ fuel ih =>
    cases k with
    | zero => exact ih hn hwalk (by rw [trace_first] at ht ⊢; exact ht)
    | succ k =>
      obtain ⟨p,hp,-,hstep,hcost⟩ := hs.parent hn
      simp only [trace, hn, hg.tileAt?_eq, Option.bind_eq_bind, Option.bind_some] at ht
      obtain ⟨hout,hsum⟩ := ih hp (.step hstep hwalk) ht
      rw [Grid.cost_cons] at hsum
      exact ⟨hout,by omega⟩

def initial (q : Query) (start : Tile) : Search :=
  let total : UInt16 := .ofNat (q.config.heuristic.estimate start q.goal)
  ⟨[⟨.ofNat (q.grid.index start),0,0,total⟩],[⟨total,0⟩],[]⟩

private theorem initial_getElem? {k : Nat} (hk : (initial q start).nodes[k]? = some n) :
    k = 0 ∧ n.tile = q.grid.place start ∧ n.cost = 0 ∧
      n.total = .ofNat (q.config.heuristic.estimate start q.goal) := by
  simp only [initial, List.getElem?_singleton] at hk
  split_ifs at hk with h0
  cases hk
  exact ⟨h0,rfl,rfl,rfl⟩

theorem isSound_initial (hg : q.grid.IsSized) (hstart : q.grid.isWalkable start = true)
    (hgoal : q.grid.contains q.goal = true) : (initial q start).IsSound q start where
  first := ⟨_,rfl,rfl,rfl⟩
  size := by simp [initial, maxNodes]
  tile hk := ⟨start,hstart,(initial_getElem? hk).2.1⟩
  distinct hj hk _ := by rw [(initial_getElem? hj).1, (initial_getElem? hk).1]
  total hk := by
    obtain ⟨-,htile,hcost,htotal⟩ := initial_getElem? hk
    have hle := hg.estimate_le q.config.heuristic (Grid.contains_of_isWalkable hstart) hgoal
    rw [q.tileOf_eq hg hstart htile, hcost, htotal, UInt16.toNat_ofNat']
    simp
    omega
  cost_le hk := by simp [(initial_getElem? hk).2.2.1]
  parent hk := absurd (initial_getElem? hk).1 (by omega)
  closed_nodup := by simp [initial]
  closed_known := by simp [initial]
  alive hk := by
    obtain ⟨rfl,-,-,htotal⟩ := initial_getElem? hk
    exact .inr (by simp [initial, htotal])
  entry e he := by
    obtain rfl : e = ⟨.ofNat (q.config.heuristic.estimate start q.goal),0⟩ := by simpa [initial] using he
    exact ⟨_,rfl,Nat.le_refl _⟩
  sorted := by simp [initial]

/-- A step that ends a search, if at all, with a full table. -/
def FillsOnly {α : Type} (x : Except (Halt Outcome) α) : Prop :=
  ∀ o, x = .error (.error o) → o = .tableFull

theorem FillsOnly.ok {α : Type} (a : α) : FillsOnly (.ok a) := by
  intro o h
  cases h

theorem FillsOnly.ofOption {α : Type} (x : Option α) : FillsOnly (Halt.ofOption x) := by
  intro o h
  cases x <;> cases h

theorem FillsOnly.bind {α β : Type} {x : Except (Halt Outcome) α} {f : α → Except (Halt Outcome) β}
    (hx : FillsOnly x) (hf : ∀ a, FillsOnly (f a)) : FillsOnly (x >>= f) := by
  intro o h
  cases x with
  | ok a => exact hf a o h
  | error err =>
    cases h
    exact hx o rfl

theorem fillsOnly_reach (q : Query) (parent : UInt8) (next : Tile) (cost : UInt16) (s : Search) :
    FillsOnly (s.reach q parent next cost) := by
  intro o h
  unfold reach at h
  simp only at h
  split at h
  · split_ifs at h
    · cases h
      rfl
  · split_ifs at h
    · cases h
      rfl
    · cases h
      rfl

theorem fillsOnly_visit (q : Query) (current : UInt8) (p : Node) (t : Tile) (s : Search)
    (d : Direction) : FillsOnly (visit q current p t s d) := by
  refine (FillsOnly.ofOption _).bind fun b => ?_
  split_ifs
  · exact .ok s
  · refine (FillsOnly.ofOption _).bind fun b => ?_
    split_ifs
    · exact .ok s
    · exact (FillsOnly.ofOption _).bind fun w => fillsOnly_reach q current _ _ s

theorem fillsOnly_expand (q : Query) (current : UInt8) (p : Node) (s : Search) :
    FillsOnly (expand q current p s) := by
  refine (FillsOnly.ofOption _).bind fun t => ?_
  generalize ({ s with closed := p.tile :: s.closed } : Search) = s
  induction q.config.directions generalizing s with
  | nil => exact .ok s
  | cons d ds ih =>
    rw [List.foldlM_cons]
    exact (fillsOnly_visit q current p t s d).bind ih

/-- The loop is left early only because a table is full. -/
theorem fillsOnly_run (q : Query) (budget : Nat) (s : Search) : FillsOnly (run q budget s) := by
  obtain ⟨nodes,waiting,closed⟩ := s
  induction budget generalizing nodes waiting closed with
  | zero => cases waiting <;> exact .ok _
  | succ budget ih =>
    cases waiting with
    | nil => exact .ok _
    | cons e rest =>
      refine (FillsOnly.ofOption _).bind fun p => (FillsOnly.ofOption _).bind fun b => ?_
      split_ifs
      · exact ih _ _ _
      · exact (FillsOnly.ofOption _).bind fun path => .ok _
      · exact (fillsOnly_expand q e.node p _).bind fun s => ih _ _ _

end Search

/-- A search that gets as far as its loop. -/
theorem search_eq {g : Grid} (hg : g.IsSized) (start goal : Tile) (c : Config) :
    search g start goal c =
      if g.isWalkable start = true ∧ g.isWalkable goal = true then
        if start = goal then some (.found [])
        else match Search.run ⟨g,c,goal⟩ c.maxIterations.toNat (Search.initial ⟨g,c,goal⟩ start) with
          | .ok outcome => some outcome
          | .error (.error outcome) => some outcome
          | .error .fault => none
      else some .noPath := by
  simp only [search, hg.isWalkable?_eq, Option.bind_eq_bind, Option.bind_some]
  cases g.isWalkable start <;> cases g.isWalkable goal <;> simp
  rfl

end Cartridge.Nav
