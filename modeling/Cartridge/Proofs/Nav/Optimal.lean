import Mathlib.Tactic.Common
import Cartridge.Proofs.Nav.Tables

/-!
A path that a search finds costs no more than any other walk. Where steps cost at least what the
estimate falls by, nodes are closed in the order of their estimates, and the steps from closed nodes
lead to nodes that are no dearer than the step makes them.
-/
namespace Cartridge.Nav

namespace Search

variable {q : Query} {start : Tile} {s : Search}

/-- Closed nodes come before waiting entries, and their neighbours are known at what a step costs. -/
structure IsOrdered (q : Query) (s : Search) (estimate : Nat) : Prop where
  behind : ∀ {k : Nat} {n : Node}, s.nodes[k]? = some n → n.tile ∈ s.closed →
    n.total.toNat ≤ estimate
  ahead : ∀ e ∈ s.waiting, estimate ≤ e.total.toNat
  relaxed : ∀ {k : Nat} {n : Node}, s.nodes[k]? = some n → n.tile ∈ s.closed →
    ∀ t, q.grid.Step q.config.diagonal (q.tileOf n) t →
      s.Reaches q t (n.cost.toNat + (q.grid.weight t).toNat)

/-- The same while a node is expanded, of whose neighbours some have been looked at. -/
structure Advances (q : Query) (p : Node) (done : List Direction) (s : Search) : Prop where
  behind : ∀ {k : Nat} {n : Node}, s.nodes[k]? = some n → n.tile ∈ s.closed →
    n.total.toNat ≤ p.total.toNat
  ahead : ∀ e ∈ s.waiting, p.total.toNat ≤ e.total.toNat
  relaxed : ∀ {k : Nat} {n : Node}, s.nodes[k]? = some n → n.tile ∈ s.closed → n.tile ≠ p.tile →
    ∀ t, q.grid.Step q.config.diagonal (q.tileOf n) t →
      s.Reaches q t (n.cost.toNat + (q.grid.weight t).toNat)
  looked : ∀ d ∈ done, q.grid.allows (q.tileOf p) d = true →
    s.Reaches q (d.apply (q.tileOf p))
      (p.cost.toNat + (q.grid.weight (d.apply (q.tileOf p))).toNat)

/-- Looking at one more neighbour. -/
theorem Advances.cons {p : Node} {done : List Direction} (h : s.Advances q p done) {d : Direction}
    (hd : q.grid.allows (q.tileOf p) d = true → s.Reaches q (d.apply (q.tileOf p))
      (p.cost.toNat + (q.grid.weight (d.apply (q.tileOf p))).toNat)) :
    s.Advances q p (d :: done) := by
  refine ⟨h.behind,h.ahead,h.relaxed,fun x hx => ?_⟩
  rcases List.mem_cons.mp hx with rfl | hx
  · exact hd
  · exact h.looked x hx

/-- A neighbour that was closed before is no dearer than through the expanded node. -/
theorem Expands.reaches_closed (hg : q.grid.IsSized) (hf : q.IsFair) {current : UInt8} {p : Node}
    {done : List Direction} (h : s.Expands q start current p) (ha : s.Advances q p done) {next : Tile}
    (hstep : q.grid.Step q.config.diagonal (q.tileOf p) next) (hc : q.grid.place next ∈ s.closed) :
    s.Reaches q next (p.cost.toNat + (q.grid.weight next).toNat) := by
  obtain ⟨m,hmem,htile⟩ := h.sound.closed_known _ hc
  obtain ⟨k,hm⟩ := List.getElem?_of_mem hmem
  have hle := ha.behind hm (htile ▸ hc)
  have hest := hf.estimate_step hstep
  rw [h.sound.total hm, h.sound.total h.here, q.tileOf_eq hg hstep.walkable htile] at hle
  exact ⟨k,m,hm,htile,by omega⟩

theorem Advances.enter {p n : Node} {done : List Direction} {slot : Nat} (ha : s.Advances q p done)
    (ho : s.Offers q slot n) (hle : p.total.toNat ≤ n.total.toNat) :
    (s.enter slot n).Advances q p done where
  behind hk hc := by
    rcases ho.enter_cases hk with ⟨-,rfl⟩ | ⟨-,hk⟩
    · exact absurd hc ho.unclosed
    · exact ha.behind hk hc
  ahead e he := by
    rcases mem_insertEntry.mp he with rfl | he
    · exact hle
    · exact ha.ahead e he
  relaxed hk hc hne t ht := by
    rcases ho.enter_cases hk with ⟨-,rfl⟩ | ⟨-,hk⟩
    · exact absurd hc ho.unclosed
    · exact ho.reaches (ha.relaxed hk hc hne t ht)
  looked d hd hallows := ho.reaches (ha.looked d hd hallows)

theorem Advances.visited (hg : q.grid.IsSized) (hf : q.IsFair) {current : UInt8} {p : Node}
    {done : List Direction} (h : s.Expands q start current p) (ha : s.Advances q p done)
    {d : Direction} (hd : d ∈ q.config.directions) (hallows : q.grid.allows (q.tileOf p) d = true)
    {s' : Search} (hv : Visited q p (d.apply (q.tileOf p)) s s') : s'.Advances q p (d :: done) := by
  have hcontains := Grid.contains_of_isWalkable (h.sound.isWalkable_tileOf hg h.here)
  have hstep := (hg.step_iff hcontains q.config).mpr ⟨d,hd,hallows,rfl⟩
  cases hv with
  | closed hc => exact ha.cons fun _ => h.reaches_closed hg hf ha hstep hc
  | kept hm ht hc => exact ha.cons fun _ => ⟨_,_,hm,ht,hc⟩
  | @entered slot n ho ht hc =>
    have hest := hf.estimate_step hstep
    have htile : q.tileOf n = d.apply (q.tileOf p) := q.tileOf_eq hg hstep.walkable ht
    have hle : p.total.toNat ≤ n.total.toNat := by
      rw [ho.total, h.sound.total h.here, htile]
      omega
    exact (ha.enter ho hle).cons fun _ => ⟨slot,n,ho.enter_self,ht,by omega⟩

/-- When all neighbours have been looked at, the expanded node is closed like the others. -/
theorem Advances.isOrdered (hg : q.grid.IsSized) {current : UInt8} {p : Node}
    {done : List Direction} (h : s.Expands q start current p) (ha : s.Advances q p done)
    (hall : ∀ d ∈ q.config.directions, d ∈ done) : s.IsOrdered q p.total.toNat := by
  refine ⟨ha.behind,ha.ahead,?_⟩
  intro k n hn hc t ht
  rcases h.step_cases hg hn ht with he | ⟨rfl,d,hd,hallows,rfl⟩
  · exact ha.relaxed hn hc he t ht
  · exact ha.looked d (hall d hd) hallows

theorem IsOrdered.skip {estimate : Nat} (h : s.IsOrdered q estimate) {e : Entry} {rest : List Entry}
    (hw : s.waiting = e :: rest) : (Search.mk s.nodes rest s.closed).IsOrdered q estimate :=
  ⟨h.behind,fun a ha => h.ahead a (hw ▸ List.mem_cons_of_mem e ha),h.relaxed⟩

/-- The first entry, of a node that is not closed, carries the node's estimate, and no entry carries a
smaller one. -/
theorem IsSound.first_entry (hs : s.IsSound q start) {e : Entry} {rest : List Entry}
    (hw : s.waiting = e :: rest) {p : Node} (hp : s.nodes[e.node.toNat]? = some p)
    (hc : p.tile ∉ s.closed) :
    e.total.toNat = p.total.toNat ∧ ∀ a ∈ s.waiting, p.total.toNat ≤ a.total.toNat := by
  have hsorted := (List.pairwise_cons.mp (hw ▸ hs.sorted)).1
  have hfirst : ∀ a ∈ s.waiting, e.total.toNat ≤ a.total.toNat := by
    intro a ha
    rw [hw] at ha
    rcases List.mem_cons.mp ha with rfl | ha
    · exact Nat.le_refl _
    · exact hsorted a ha
  obtain ⟨m,hm,hle⟩ := hs.entry e (hw ▸ List.mem_cons_self)
  obtain rfl : m = p := Option.some.inj (hm.symm.trans hp)
  have hown := hfirst _ ((hs.alive hp).resolve_left hc)
  have heq : e.total.toNat = m.total.toNat := Nat.le_antisymm hown hle
  exact ⟨heq,fun a ha => heq ▸ hfirst a ha⟩

theorem IsOrdered.close {estimate : Nat} (h : s.IsOrdered q estimate) (hs : s.IsSound q start)
    {e : Entry} {rest : List Entry} (hw : s.waiting = e :: rest) {p : Node}
    (hp : s.nodes[e.node.toNat]? = some p) (hc : p.tile ∉ s.closed) :
    (Search.mk s.nodes rest (p.tile :: s.closed)).Advances q p [] := by
  obtain ⟨htotal,hmin⟩ := hs.first_entry hw hp hc
  have hestimate := h.ahead e (hw ▸ List.mem_cons_self)
  refine ⟨?_,fun a ha => hmin a (hw ▸ List.mem_cons_of_mem e ha),?_,by simp⟩
  · intro k n hn hclosed
    rcases List.mem_cons.mp hclosed with he | hclosed
    · obtain rfl := hs.distinct hn hp he
      obtain rfl : n = p := Option.some.inj (hn.symm.trans hp)
      exact Nat.le_refl _
    · have hle := h.behind hn hclosed
      omega
  · intro k n hn hclosed hne
    exact h.relaxed hn ((List.mem_cons.mp hclosed).resolve_left hne)

/-- A node that is not closed is no nearer to the goal than the least estimate allows. -/
theorem IsSound.bound_le (hf : q.IsFair) (hs : s.IsSound q start) {bound : Nat}
    (hbound : ∀ e ∈ s.waiting, bound ≤ e.total.toNat) {k : Nat} {m : Node}
    (hm : s.nodes[k]? = some m) (hc : m.tile ∉ s.closed) {path : List Tile}
    (hwalk : q.grid.Walk q.config.diagonal (q.tileOf m) path q.goal) :
    bound ≤ m.cost.toNat + q.grid.cost path := by
  have hle := hbound _ ((hs.alive hm).resolve_left hc)
  have hest := hf.estimate_le_cost hwalk rfl
  have htotal := hs.total hm
  simp only at hle
  omega

/-- No walk from a known tile to the goal costs less than the least estimate: its first tile that is
not closed is known at no more than the walk costs so far. -/
theorem IsOrdered.bound_le_cost (hg : q.grid.IsSized) (hf : q.IsFair) {estimate : Nat}
    (h : s.IsOrdered q estimate) (hs : s.IsSound q start) {bound : Nat}
    (hbound : ∀ e ∈ s.waiting, bound ≤ e.total.toNat) (hgoal : q.grid.place q.goal ∉ s.closed)
    {a b : Tile} {path : List Tile} (hwalk : q.grid.Walk q.config.diagonal a path b) (hb : b = q.goal)
    (ha : q.grid.isWalkable a = true) {c : Nat} (hc : s.Reaches q a c) :
    bound ≤ c + q.grid.cost path := by
  induction hwalk generalizing c with
  | stay a =>
    obtain ⟨k,m,hm,htile,hcost⟩ := hc
    have hopen : m.tile ∉ s.closed := by rwa [htile, hb]
    have hwalk : q.grid.Walk q.config.diagonal (q.tileOf m) [] q.goal := by
      rw [q.tileOf_eq hg ha htile, hb]
      exact .stay _
    have hle := hs.bound_le hf hbound hm hopen hwalk
    omega
  | @step a x b path hstep rest ih =>
    obtain ⟨k,m,hm,htile,hcost⟩ := hc
    have hwalk : q.grid.Walk q.config.diagonal (q.tileOf m) (x :: path) b := by
      rw [q.tileOf_eq hg ha htile]
      exact .step hstep rest
    by_cases hclosed : m.tile ∈ s.closed
    · have hnext := h.relaxed hm hclosed x (by rwa [q.tileOf_eq hg ha htile])
      have hle := ih hb hstep.walkable hnext
      rw [Grid.cost_cons]
      omega
    · have hle := hs.bound_le hf hbound hm hclosed (hb ▸ hwalk)
      omega

/-- One expansion keeps the order. -/
theorem IsOrdered.expand (hg : q.grid.IsSized) (hf : q.IsFair) (hgoal : q.grid.contains q.goal = true)
    {estimate : Nat} (h : s.IsOrdered q estimate) (hs : s.IsSound q start) {e : Entry}
    {rest : List Entry} (hw : s.waiting = e :: rest) {p : Node}
    (hp : s.nodes[e.node.toNat]? = some p) (hc : p.tile ∉ s.closed) {s' : Search}
    (he : Search.expand q e.node p ⟨s.nodes,rest,s.closed⟩ = .ok s') :
    s'.IsSound q start ∧ s'.IsOrdered q p.total.toNat := by
  rw [expand_eq hg] at he
  obtain ⟨hexpands,hadvances⟩ := Expands.foldlM_visit hg hgoal
    (motive := fun done s => s.Advances q p done)
    (fun hm hblocked => hm.cons fun hallows => absurd hallows (by simp [hblocked]))
    (fun hx hm hd hallows hv => hm.visited hg hf hx hd hallows hv)
    (fun _ hd => hd) (hs.close hw hp hc) (h.close hs hw hp hc) he
  exact ⟨hexpands.sound,hadvances.isOrdered hg hexpands (by simp)⟩

/-- The goal is taken at the least cost of a walk. -/
theorem IsOrdered.cost_goal_le (hg : q.grid.IsSized) (hf : q.IsFair)
    (hstart : q.grid.isWalkable start = true) (hgoal : q.grid.isWalkable q.goal = true)
    {estimate : Nat} (h : s.IsOrdered q estimate) (hs : s.IsSound q start) {e : Entry}
    {rest : List Entry} (hw : s.waiting = e :: rest) {p : Node}
    (hp : s.nodes[e.node.toNat]? = some p) (hc : p.tile ∉ s.closed)
    (htile : p.tile = q.grid.place q.goal) {walk : List Tile}
    (hwalk : q.grid.Walk q.config.diagonal start walk q.goal) : p.cost.toNat ≤ q.grid.cost walk := by
  have htotal := hs.total hp
  rw [q.tileOf_eq hg hgoal htile, Heuristic.estimate_self] at htotal
  obtain ⟨first,hfirst,hplace,hzero⟩ := hs.first
  have hreach : s.Reaches q start 0 := ⟨0,first,hfirst,hplace,by simp [hzero]⟩
  have hle := h.bound_le_cost hg hf hs (hs.first_entry hw hp hc).2 (htile ▸ hc) hwalk rfl hstart hreach
  omega

/-- A path is a walk to the goal that no other walk undercuts. -/
def IsCheapest (q : Query) (start : Tile) (path : List Tile) : Prop :=
  q.grid.Walk q.config.diagonal start path q.goal ∧
    ∀ walk, q.grid.Walk q.config.diagonal start walk q.goal → q.grid.cost path ≤ q.grid.cost walk

/-- Every path the loop finds is a cheapest one. -/
theorem IsOrdered.run_found (hg : q.grid.IsSized) (hf : q.IsFair)
    (hstart : q.grid.isWalkable start = true) (hgoal : q.grid.isWalkable q.goal = true)
    {estimate budget : Nat} (h : s.IsOrdered q estimate) (hs : s.IsSound q start) {path : List Tile}
    (hr : run q budget s = .ok (.found path)) : IsCheapest q start path := by
  induction budget generalizing s estimate with
  | zero =>
    rw [run.eq_def] at hr
    cases hw : s.waiting <;> simp [hw] at hr
  | succ budget ih =>
    cases hw : s.waiting with
    | nil =>
      rw [run.eq_def] at hr
      simp [hw] at hr
    | cons e rest =>
      obtain ⟨p,hp,-⟩ := hs.entry e (hw ▸ List.mem_cons_self)
      rw [hs.run_succ hg hw hp] at hr
      split_ifs at hr with hclosed hfound
      · exact ih (h.skip hw) (hs.skip hw hp hclosed) hr
      · cases ht : trace q.grid s.nodes s.nodes.length e.node.toNat [] with
        | none =>
          rw [ht] at hr
          cases hr
        | some out =>
          rw [ht] at hr
          cases hr
          have htile : p.tile = q.grid.place q.goal := by
            rw [← UInt16.toNat_inj, hg.toNat_place (Grid.contains_of_isWalkable hgoal), hfound]
          have hstay : q.grid.Walk q.config.diagonal (q.tileOf p) [] q.goal := by
            rw [q.tileOf_eq hg hgoal htile]
            exact .stay _
          obtain ⟨hout,hcost⟩ := hs.walk_trace hg hstart hp hstay ht
          refine ⟨hout,fun walk hwalk => ?_⟩
          rw [hcost]
          exact h.cost_goal_le hg hf hstart hgoal hs hw hp hclosed htile hwalk
      · cases he : Search.expand q e.node p ⟨s.nodes,rest,s.closed⟩ with
        | error err =>
          rw [he] at hr
          cases hr
        | ok next =>
          rw [he] at hr
          obtain ⟨hsound,hordered⟩ :=
            h.expand hg hf (Grid.contains_of_isWalkable hgoal) hs hw hp hclosed he
          exact ih hordered hsound hr

theorem isOrdered_initial (q : Query) (start : Tile) : (initial q start).IsOrdered q 0 := by
  refine ⟨fun _ hc => ?_,fun _ _ => Nat.zero_le _,fun _ hc => ?_⟩
  · cases hc
  · cases hc

end Search

/-- A path that a search finds is a legal walk to the goal, and no legal walk of any length costs less,
provided that every walkable tile costs something and the estimate suits the directions. -/
theorem search_finds_cheapest_walk {g : Grid} {start goal : Tile} {c : Config} {path : List Tile}
    (hvalid : g.validate = .ok ()) (hweight : ∀ t, g.isWalkable t = true → 1 ≤ (g.weight t).toNat)
    (hc : c.diagonal = false ∨ c.heuristic = .chebyshev)
    (hs : search g start goal c = some (.found path)) :
    g.Walk c.diagonal start path goal ∧
      ∀ walk, g.Walk c.diagonal start walk goal → g.cost path ≤ g.cost walk := by
  have hg := Grid.isSized_of_validate hvalid
  rw [search_eq hg] at hs
  split_ifs at hs with hwalkable heq
  · cases hs
    exact ⟨heq ▸ .stay start,fun _ _ => Nat.zero_le _⟩
  · obtain ⟨hstart,hgoal⟩ := hwalkable
    have hsound := Search.isSound_initial (q := ⟨g,c,goal⟩) hg hstart (Grid.contains_of_isWalkable hgoal)
    have hordered := Search.isOrdered_initial ⟨g,c,goal⟩ start
    cases hr : Search.run ⟨g,c,goal⟩ c.maxIterations.toNat (Search.initial ⟨g,c,goal⟩ start) with
    | ok outcome =>
      rw [hr] at hs
      cases hs
      exact hordered.run_found hg ⟨hweight,hc⟩ hstart hgoal hsound hr
    | error halt =>
      rw [hr] at hs
      cases halt with
      | error outcome =>
        cases hs
        cases Search.fillsOnly_run _ _ _ _ hr
      | fault => cases hs
  · cases hs

def hillGrid : Grid where
  width := 3
  height := 2
  walkable := [63]
  weights := some [1, 9, 1, 1, 1, 1]

private theorem hillGrid_weight (t : Tile) : 1 ≤ (hillGrid.weight t).toNat := by
  have hall : ∀ i, 1 ≤ (([1, 9, 1, 1, 1, 1] : List UInt8).getD i 1).toNat
    | 0 | 1 | 2 | 3 | 4 | 5 => by decide
    | i + 6 => by simp
  change 1 ≤ (if hillGrid.contains t = true then
    ([1, 9, 1, 1, 1, 1] : List UInt8).getD (hillGrid.index t) 1 else 1).toNat
  by_cases ht : hillGrid.contains t = true
  · rw [if_pos ht]
    exact hall _
  · rw [if_neg ht]
    decide

theorem hillGrid_path_is_cheapest :
    search hillGrid ⟨0,0⟩ ⟨2,0⟩ { maxIterations := 20 } =
        some (.found [⟨0,1⟩, ⟨1,1⟩, ⟨2,1⟩, ⟨2,0⟩]) ∧
      ∀ walk, hillGrid.Walk false ⟨0,0⟩ walk ⟨2,0⟩ → 4 ≤ hillGrid.cost walk := by
  have hsearch : search hillGrid ⟨0,0⟩ ⟨2,0⟩ { maxIterations := 20 } =
      some (.found [⟨0,1⟩, ⟨1,1⟩, ⟨2,1⟩, ⟨2,0⟩]) := by decide
  exact ⟨hsearch,(search_finds_cheapest_walk (by decide) (fun t _ => hillGrid_weight t) (.inl rfl)
    hsearch).2⟩

end Cartridge.Nav
