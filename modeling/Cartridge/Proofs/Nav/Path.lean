import Mathlib.Data.List.Nodup
import Mathlib.Data.List.Perm.Subperm
import Mathlib.Tactic.Common
import Cartridge.Proofs.Nav.Reachable

/-!
A path that a search finds is a simple walk, whatever the weights and the estimate. The parent of a
closed node was closed before it and neither is written again, so following parents leads through
nodes closed earlier and earlier, and ends at the first one.
-/
namespace Cartridge.Nav

namespace Grid

/-- A way from a tile to another by legal steps that enters no tile twice. -/
structure IsSimplePath (g : Grid) (diagonal : Bool) (start goal : Tile) (path : List Tile) : Prop where
  nonempty : path ≠ []
  last : path.getLast? = some goal
  walkable : ∀ t ∈ path, g.isWalkable t = true
  steps : (start :: path).IsChain (g.Step diagonal)
  simple : (start :: path).Nodup

namespace Walk

variable {g : Grid} {diagonal : Bool} {a b : Tile} {path : List Tile}

theorem walkable (h : g.Walk diagonal a path b) : ∀ t ∈ path, g.isWalkable t = true := by
  induction h with
  | stay a => simp
  | step hs _ ih =>
    intro t ht
    rcases List.mem_cons.mp ht with rfl | ht
    · exact hs.walkable
    · exact ih t ht

theorem isChain (h : g.Walk diagonal a path b) : (a :: path).IsChain (g.Step diagonal) := by
  induction h with
  | stay a => exact .singleton a
  | step hs _ ih => exact .cons_cons hs ih

theorem getLast?_eq (h : g.Walk diagonal a path b) : (a :: path).getLast? = some b := by
  induction h with
  | stay a => rfl
  | step _ _ ih => rw [List.getLast?_cons_cons, ih]

/-- A walk between different tiles is a simple path if it enters no tile twice. -/
theorem isSimplePath (h : g.Walk diagonal a path b) (hne : a ≠ b) (hnodup : (a :: path).Nodup) :
    g.IsSimplePath diagonal a b path := by
  have hlast := h.getLast?_eq
  cases path with
  | nil => exact absurd (Option.some.inj hlast) hne
  | cons x path => exact ⟨by simp,by rwa [List.getLast?_cons_cons] at hlast,h.walkable,h.isChain,hnodup⟩

end Walk

end Grid

namespace Search

/-- Following parents from a slot comes to the first node. -/
inductive LeadsBack (nodes : List Node) : Nat → Prop
  | first : LeadsBack nodes 0
  | parent {k : Nat} {n : Node} (hn : nodes[k]? = some n) (h : LeadsBack nodes n.parent.toNat) :
    LeadsBack nodes k

/-- The latest closed tile comes first; the parent of its node was closed before it. -/
def Descends (nodes : List Node) : List UInt16 → Prop
  | [] => True
  | c :: closed =>
    (∀ (k : Nat) (n : Node), nodes[k + 1]? = some n → n.tile = c →
      ∃ p, nodes[n.parent.toNat]? = some p ∧ p.tile ∈ closed) ∧ Descends nodes closed

variable {q : Query} {start : Tile} {s : Search}

/-- Entering a node changes nothing among the closed ones. -/
theorem Descends.enter {slot : Nat} {n : Node} (ho : s.Offers q slot n) {closed : List UInt16}
    (hsub : closed ⊆ s.closed) (h : Descends s.nodes closed) : Descends (s.enter slot n).nodes closed := by
  induction closed with
  | nil => trivial
  | cons c closed ih =>
    obtain ⟨hc,hsub⟩ := List.cons_subset.mp hsub
    refine ⟨fun k m hm htile => ?_,ih hsub h.2⟩
    rcases ho.enter_cases hm with ⟨-,rfl⟩ | ⟨-,hm⟩
    · exact absurd (htile ▸ hc) ho.unclosed
    · obtain ⟨p,hp,hpc⟩ := h.1 k m hm htile
      exact ⟨p,ho.frozen hp (hsub hpc),hpc⟩

/-- Every node comes from a closed one, so any may be closed next. -/
theorem Descends.close (hs : s.IsSound q start) (h : Descends s.nodes s.closed) (c : UInt16) :
    Descends s.nodes (c :: s.closed) := by
  refine ⟨fun k n hn _ => ?_,h⟩
  obtain ⟨p,hp,hclosed,-⟩ := hs.parent hn
  exact ⟨p,hp,hclosed⟩

theorem Reachable.descends (hg : q.grid.IsSized) (h : Reachable q start s) :
    Descends s.nodes s.closed := by
  have hgoal := Grid.contains_of_isWalkable h.isPosed.goal_walkable
  induction h with
  | initial => trivial
  | skip _ _ _ _ ih => exact ih
  | expand h hw hp hc _ he ih =>
    have hs := h.isSound hg
    refine (hs.expand_induction hg hgoal (motive := fun _ s => Descends s.nodes s.closed) hw hp hc
      (ih.close hs _) (fun hd _ => hd) (fun _ hd _ _ hv => ?_) he).2
    cases hv with
    | closed => exact hd
    | kept => exact hd
    | entered ho => exact hd.enter ho (List.Subset.refl _)

theorem IsSound.place_tileOf (hg : q.grid.IsSized) (hs : s.IsSound q start) {k : Nat} {n : Node}
    (hn : s.nodes[k]? = some n) : q.grid.place (q.tileOf n) = n.tile := by
  obtain ⟨t,ht,htile⟩ := hs.tile hn
  rw [q.tileOf_eq hg ht htile, htile]

/-- Only the first node stands for the start. -/
theorem IsSound.tileOf_ne_start (hg : q.grid.IsSized) (hs : s.IsSound q start) {k : Nat} {n : Node}
    (hn : s.nodes[k + 1]? = some n) : q.tileOf n ≠ start := by
  rintro he
  obtain ⟨m,hm,htile,-⟩ := hs.first
  have hsame : m.tile = n.tile := by rw [htile, ← he, hs.place_tileOf hg hn]
  cases hs.distinct hm hn hsame

/-- Tiles of closed nodes, each of them once and none the start. -/
structure IsTrail (q : Query) (start : Tile) (s : Search) (closed : List UInt16) (trail : List Tile) :
    Prop where
  nodup : (start :: trail).Nodup
  known : ∀ t ∈ trail, ∃ m ∈ s.nodes, q.tileOf m = t ∧ m.tile ∈ closed

theorem IsTrail.mono {closed more : List UInt16} {trail : List Tile} (h : s.IsTrail q start closed trail)
    (hsub : closed ⊆ more) : s.IsTrail q start more trail := by
  refine ⟨h.nodup,fun t ht => ?_⟩
  obtain ⟨m,hm,htile,hclosed⟩ := h.known t ht
  exact ⟨m,hm,htile,hsub hclosed⟩

/-- The tile of a node that was closed later is not on the trail yet. -/
theorem IsTrail.concat (hg : q.grid.IsSized) (hs : s.IsSound q start) {closed : List UInt16}
    {trail : List Tile} (h : s.IsTrail q start closed trail) {k : Nat} {n : Node}
    (hn : s.nodes[k + 1]? = some n) (hlater : n.tile ∉ closed) :
    s.IsTrail q start (n.tile :: closed) (trail ++ [q.tileOf n]) := by
  have hfresh : q.tileOf n ∉ trail := by
    intro hmem
    obtain ⟨m,hm,htile,hclosed⟩ := h.known _ hmem
    obtain ⟨j,hj⟩ := List.getElem?_of_mem hm
    have hsame : m.tile = n.tile := by rw [← hs.place_tileOf hg hj, htile, hs.place_tileOf hg hn]
    exact hlater (hsame ▸ hclosed)
  constructor
  · rw [← List.cons_append]
    refine List.Nodup.append h.nodup (List.nodup_singleton _) ?_
    rw [List.disjoint_singleton, List.mem_cons, not_or]
    exact ⟨hs.tileOf_ne_start hg hn,hfresh⟩
  · intro t ht
    rcases List.mem_append.mp ht with ht | ht
    · exact (h.mono (List.subset_cons_self _ _)).known t ht
    · obtain rfl := List.mem_singleton.mp ht
      exact ⟨n,List.mem_of_getElem? hn,rfl,List.mem_cons_self⟩

/-- From a closed node the parents are traced back to the first, along a trail: by induction on the
closed tiles, where a parent stands further down. -/
theorem IsSound.exists_trace (hg : q.grid.IsSized) (hs : s.IsSound q start) {closed : List UInt16}
    (hd : Descends s.nodes closed) (hnodup : closed.Nodup) {fuel k : Nat} (hfuel : closed.length ≤ fuel)
    {n : Node} (hn : s.nodes[k]? = some n) (hc : n.tile ∈ closed) (path : List Tile) :
    ∃ trail, trace q.grid s.nodes fuel k path = some (trail ++ path) ∧ s.IsTrail q start closed trail := by
  induction closed generalizing fuel k n path with
  | nil => cases hc
  | cons c closed ih =>
    obtain ⟨hparent,hd⟩ := hd
    obtain ⟨hlater,hrest⟩ := List.nodup_cons.mp hnodup
    rw [List.length_cons] at hfuel
    rcases List.mem_cons.mp hc with rfl | hearlier
    · cases k with
      | zero => exact ⟨[],by cases fuel <;> rfl,by simp,by simp⟩
      | succ k =>
        obtain ⟨p,hp,hpc⟩ := hparent k n hn rfl
        obtain ⟨fuel,rfl⟩ : ∃ less, fuel = less + 1 := ⟨fuel - 1,by omega⟩
        have hless : closed.length ≤ fuel := by omega
        obtain ⟨trail,htrace,htrail⟩ := ih hd hrest hless hp hpc (q.tileOf n :: path)
        refine ⟨trail ++ [q.tileOf n],?_,htrail.concat hg hs hn hlater⟩
        simp only [trace, hn, hg.tileAt?_eq, Option.bind_eq_bind, Option.bind_some]
        rw [List.append_assoc, List.singleton_append]
        exact htrace
    · obtain ⟨trail,htrace,htrail⟩ := ih hd hrest (Nat.le_of_succ_le hfuel) hn hearlier path
      exact ⟨trail,htrace,htrail.mono (List.subset_cons_self _ _)⟩

theorem leadsBack_of_trace {g : Grid} {nodes : List Node} {fuel k : Nat} {path out : List Tile}
    (h : trace g nodes fuel k path = some out) : LeadsBack nodes k := by
  induction fuel generalizing k path with
  | zero =>
    cases k with
    | zero => exact .first
    | succ k => cases h
  | succ fuel ih =>
    cases k with
    | zero => exact .first
    | succ k =>
      rw [trace] at h
      cases hn : nodes[k + 1]? with
      | none => simp [hn] at h
      | some n =>
        simp only [hn, Option.bind_eq_bind, Option.bind_eq_some_iff] at h
        obtain ⟨t,-,h⟩ := h
        exact .parent hn (ih h)

/-- A trail is shorter than the table of nodes, in which the start stands as well. -/
theorem IsTrail.length_le (hg : q.grid.IsSized) (hs : s.IsSound q start)
    (hstart : q.grid.isWalkable start = true) {closed : List UInt16} {trail : List Tile}
    (h : s.IsTrail q start closed trail) : trail.length ≤ 63 := by
  have hsub : start :: trail ⊆ s.nodes.map q.tileOf := by
    rw [List.cons_subset]
    constructor
    · obtain ⟨m,hm,htile,-⟩ := hs.first
      exact List.mem_map.mpr ⟨m,List.mem_of_getElem? hm,q.tileOf_eq hg hstart htile⟩
    · intro t ht
      obtain ⟨m,hm,htile,-⟩ := h.known t ht
      exact List.mem_map.mpr ⟨m,hm,htile⟩
  have hle := (List.subperm_of_subset h.nodup hsub).length_le
  have hsize : s.nodes.length ≤ 64 := hs.size
  rw [List.length_cons, List.length_map] at hle
  omega

/-- Every node stands, or could be put, among closed ones whose parents were closed before them. -/
private theorem Reachable.exists_descends (hg : q.grid.IsSized) (h : Reachable q start s) {k : Nat}
    {n : Node} (hn : s.nodes[k]? = some n) :
    ∃ closed, Descends s.nodes closed ∧ closed.Nodup ∧ closed.length ≤ s.nodes.length ∧
      n.tile ∈ closed := by
  have hs := h.isSound hg
  by_cases hc : n.tile ∈ s.closed
  · exact ⟨s.closed,h.descends hg,hs.closed_nodup,length_le_of_known hs.closed_nodup hs.closed_known,hc⟩
  · have hnodup : (n.tile :: s.closed).Nodup := List.nodup_cons.mpr ⟨hc,hs.closed_nodup⟩
    refine ⟨n.tile :: s.closed,(h.descends hg).close hs _,hnodup,length_le_of_known hnodup ?_,
      List.mem_cons_self⟩
    intro c hmem
    rcases List.mem_cons.mp hmem with rfl | hmem
    · exact ⟨n,List.mem_of_getElem? hn,rfl⟩
    · exact hs.closed_known c hmem

/-- Parents are traced back from every node of the tables, along a simple path. -/
theorem Reachable.exists_trace (hg : q.grid.IsSized) (h : Reachable q start s) {k : Nat} {n : Node}
    (hn : s.nodes[k]? = some n) :
    ∃ path, trace q.grid s.nodes s.nodes.length k [] = some path ∧ (start :: path).Nodup ∧
      path.length ≤ 63 := by
  have hs := h.isSound hg
  obtain ⟨closed,hd,hnodup,hfuel,hc⟩ := h.exists_descends hg hn
  obtain ⟨path,htrace,htrail⟩ := hs.exists_trace hg hd hnodup hfuel hn hc []
  rw [List.append_nil] at htrace
  exact ⟨path,htrace,htrail.nodup,htrail.length_le hg hs h.isPosed.start_walkable⟩

theorem Reachable.leadsBack (hg : q.grid.IsSized) (h : Reachable q start s) {k : Nat}
    (hk : k < s.nodes.length) : LeadsBack s.nodes k := by
  obtain ⟨path,htrace,-⟩ := h.exists_trace hg (List.getElem?_eq_getElem hk)
  exact leadsBack_of_trace htrace

/-- The tables on which the goal is taken spell a simple path to it. -/
theorem Reachable.exists_path (hg : q.grid.IsSized) (h : Reachable q start s) {k : Nat} {n : Node}
    (hn : s.nodes[k]? = some n) (hgoal : n.tile.toNat = q.grid.index q.goal) :
    ∃ path, trace q.grid s.nodes s.nodes.length k [] = some path ∧ path.length ≤ 63 ∧
      q.grid.IsSimplePath q.config.diagonal start q.goal path := by
  obtain ⟨hstart,hwalkable,hne⟩ := h.isPosed
  have htile : n.tile = q.grid.place q.goal := by
    rw [← UInt16.toNat_inj, hg.toNat_place (Grid.contains_of_isWalkable hwalkable), hgoal]
  have hstay : q.grid.Walk q.config.diagonal (q.tileOf n) [] q.goal := by
    rw [q.tileOf_eq hg hwalkable htile]
    exact .stay _
  obtain ⟨path,htrace,hnodup,hlength⟩ := h.exists_trace hg hn
  obtain ⟨hwalk,-⟩ := (h.isSound hg).walk_trace hg hstart hn hstay htrace
  exact ⟨path,htrace,hlength,hwalk.isSimplePath hne hnodup⟩

end Search

/-- On a valid grid, whatever its weights, a search has an answer. A path that it finds is empty where
the start is the goal, and is otherwise a simple path of at most 63 legal steps; and in all tables it
goes through, following parents from a node comes back to the first. -/
theorem found_path_is_simple {g : Grid} (hvalid : g.validate = .ok ()) (start goal : Tile) (c : Config) :
    (∃ outcome, search g start goal c = some outcome) ∧
      (∀ path, search g start goal c = some (.found path) →
        (start = goal ∧ path = []) ∨
          (g.IsSimplePath c.diagonal start goal path ∧ path.length ≤ 63)) ∧
      ∀ s, Search.Reachable ⟨g,c,goal⟩ start s → ∀ k < s.nodes.length, Search.LeadsBack s.nodes k := by
  have hg := Grid.isSized_of_validate hvalid
  rw [← and_assoc]
  refine ⟨?_,fun s hs k hk => hs.leadsBack hg hk⟩
  rcases search_cases hg start goal c with ⟨hsearch,-⟩ | ⟨hsearch,heq⟩ | ⟨s,result,hs,hends,hsearch⟩
  · rw [hsearch]
    exact ⟨⟨_,rfl⟩,fun path hpath => by cases hpath⟩
  · rw [hsearch]
    refine ⟨⟨_,rfl⟩,fun path hpath => ?_⟩
    cases hpath
    exact .inl ⟨heq,rfl⟩
  · rw [hsearch]
    cases hends with
    | noPath | budgetExhausted | tableFull => exact ⟨⟨_,rfl⟩,fun path hpath => by cases hpath⟩
    | found _ hp _ hgoal =>
      obtain ⟨out,htrace,hlength,hsimple⟩ := hs.exists_path hg hp hgoal
      rw [htrace]
      refine ⟨⟨_,rfl⟩,fun path hpath => ?_⟩
      cases hpath
      exact .inr ⟨hsimple,hlength⟩

def pondGrid : Grid where
  width := 3
  height := 3
  walkable := [239, 1]
  weights := some [0, 7, 0, 0, 0, 0, 0, 0, 0]

theorem pondGrid_path_is_simple :
    search pondGrid ⟨0,0⟩ ⟨2,0⟩ { diagonal := true, maxIterations := 20 } =
        some (.found [⟨0,1⟩, ⟨0,2⟩, ⟨1,2⟩, ⟨2,2⟩, ⟨2,1⟩, ⟨2,0⟩]) ∧
      pondGrid.IsSimplePath true ⟨0,0⟩ ⟨2,0⟩ [⟨0,1⟩, ⟨0,2⟩, ⟨1,2⟩, ⟨2,2⟩, ⟨2,1⟩, ⟨2,0⟩] := by
  have hsearch : search pondGrid ⟨0,0⟩ ⟨2,0⟩ { diagonal := true, maxIterations := 20 } =
      some (.found [⟨0,1⟩, ⟨0,2⟩, ⟨1,2⟩, ⟨2,2⟩, ⟨2,1⟩, ⟨2,0⟩]) := by decide
  rcases (found_path_is_simple (by decide) _ _ _).2.1 _ hsearch with ⟨hsame,-⟩ | ⟨hsimple,-⟩
  · cases hsame
  · exact ⟨hsearch,hsimple⟩

end Cartridge.Nav
