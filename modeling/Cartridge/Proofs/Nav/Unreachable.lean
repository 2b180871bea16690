import Mathlib.Tactic.Common
import Cartridge.Proofs.Nav.Reachable

/-!
A search that reports that there is no path has looked everywhere. The steps from closed nodes lead to
tiles that have nodes, and a node that is not closed waits; so when nothing waits, the closed tiles
are left by no legal step, and the goal is not among them.
-/
namespace Cartridge.Nav

namespace Search

def Knows (q : Query) (s : Search) (t : Tile) : Prop := ∃ cost, s.Reaches q t cost

/-- The goal is not closed, and the steps from closed nodes lead to tiles that have nodes. -/
structure Spreads (q : Query) (s : Search) : Prop where
  goal : q.grid.place q.goal ∉ s.closed
  steps : ∀ {k : Nat} {n : Node}, s.nodes[k]? = some n → n.tile ∈ s.closed →
    ∀ t, q.grid.Step q.config.diagonal (q.tileOf n) t → s.Knows q t

/-- The same while a node is expanded, of whose neighbours some have been looked at. -/
structure SpreadsFrom (q : Query) (p : Node) (done : List Direction) (s : Search) : Prop where
  goal : q.grid.place q.goal ∉ s.closed
  steps : ∀ {k : Nat} {n : Node}, s.nodes[k]? = some n → n.tile ∈ s.closed → n.tile ≠ p.tile →
    ∀ t, q.grid.Step q.config.diagonal (q.tileOf n) t → s.Knows q t
  looked : ∀ d ∈ done, q.grid.allows (q.tileOf p) d = true → s.Knows q (d.apply (q.tileOf p))

variable {q : Query} {start : Tile} {s : Search} {p : Node} {done : List Direction}

theorem Offers.knows {slot : Nat} {n : Node} (ho : s.Offers q slot n) {t : Tile} (h : s.Knows q t) :
    (s.enter slot n).Knows q t := by
  obtain ⟨cost,h⟩ := h
  exact ⟨cost,ho.reaches h⟩

theorem IsSound.knows_of_closed (hs : s.IsSound q start) {t : Tile} (hc : q.grid.place t ∈ s.closed) :
    s.Knows q t := by
  obtain ⟨m,hm,htile⟩ := hs.closed_known _ hc
  obtain ⟨k,hk⟩ := List.getElem?_of_mem hm
  exact ⟨_,k,m,hk,htile,Nat.le_refl _⟩

namespace SpreadsFrom

/-- Looking at one more neighbour. -/
theorem cons (h : s.SpreadsFrom q p done) {d : Direction}
    (hd : q.grid.allows (q.tileOf p) d = true → s.Knows q (d.apply (q.tileOf p))) :
    s.SpreadsFrom q p (d :: done) := by
  refine ⟨h.goal,h.steps,fun x hx => ?_⟩
  rcases List.mem_cons.mp hx with rfl | hx
  · exact hd
  · exact h.looked x hx

theorem enter (h : s.SpreadsFrom q p done) {slot : Nat} {n : Node} (ho : s.Offers q slot n) :
    (s.enter slot n).SpreadsFrom q p done where
  goal := h.goal
  steps hk hc hne t ht := by
    rcases ho.enter_cases hk with ⟨-,rfl⟩ | ⟨-,hk⟩
    · exact absurd hc ho.unclosed
    · exact ho.knows (h.steps hk hc hne t ht)
  looked d hd hallows := ho.knows (h.looked d hd hallows)

/-- Whatever a look at a neighbour does, the neighbour has a node then. -/
theorem visited {current : UInt8} (hx : s.Expands q start current p) (h : s.SpreadsFrom q p done)
    {d : Direction} {s' : Search} (hv : Visited q p (d.apply (q.tileOf p)) s s') :
    s'.SpreadsFrom q p (d :: done) := by
  cases hv with
  | closed hc => exact h.cons fun _ => hx.sound.knows_of_closed hc
  | kept hm ht hc => exact h.cons fun _ => ⟨_,_,_,hm,ht,hc⟩
  | entered ho ht _ => exact (h.enter ho).cons fun _ => ⟨_,_,_,ho.enter_self,ht,Nat.le_refl _⟩

/-- When all neighbours have been looked at, the expanded node is closed like the others. -/
theorem spreads (hg : q.grid.IsSized) {current : UInt8} (hx : s.Expands q start current p)
    (h : s.SpreadsFrom q p done) (hall : ∀ d ∈ q.config.directions, d ∈ done) : s.Spreads q := by
  refine ⟨h.goal,?_⟩
  intro k n hn hc t ht
  rcases hx.step_cases hg hn ht with he | ⟨rfl,d,hd,hallows,rfl⟩
  · exact h.steps hn hc he t ht
  · exact h.looked d (hall d hd) hallows

end SpreadsFrom

theorem Spreads.close (h : s.Spreads q) (hp : p.tile ≠ q.grid.place q.goal) {rest : List Entry} :
    (Search.mk s.nodes rest (p.tile :: s.closed)).SpreadsFrom q p [] := by
  refine ⟨?_,?_,by simp⟩
  · rw [List.mem_cons, not_or]
    exact ⟨hp.symm,h.goal⟩
  · intro k n hn hc hne
    exact h.steps hn ((List.mem_cons.mp hc).resolve_left hne)

theorem Reachable.spreads (hg : q.grid.IsSized) (h : Reachable q start s) : s.Spreads q := by
  have hgoal := Grid.contains_of_isWalkable h.isPosed.goal_walkable
  induction h with
  | initial => exact ⟨by simp [Search.initial],fun _ hc => by cases hc⟩
  | skip _ _ _ _ ih => exact ⟨ih.goal,ih.steps⟩
  | @expand _ _ _ _ p h hw hp hc hne he ih =>
    have hs := h.isSound hg
    have hplace : p.tile ≠ q.grid.place q.goal := fun heq => hne (by rw [heq, hg.toNat_place hgoal])
    obtain ⟨hexpands,hspreads⟩ := hs.expand_induction hg hgoal
      (motive := fun done s => s.SpreadsFrom q p done) hw hp hc (ih.close hplace)
      (fun hm hblocked => hm.cons fun hallows => absurd hallows (by simp [hblocked]))
      (fun hx hm _ _ hv => hm.visited hx hv) he
    exact hspreads.spreads hg hexpands (by simp)

/-- Where nothing waits, a walk leads from a tile that has a node to tiles that have nodes only. -/
theorem Spreads.knows_of_walk (hg : q.grid.IsSized) (hs : s.IsSound q start) (h : s.Spreads q)
    (hw : s.waiting = []) {a b : Tile} {path : List Tile} (hwalk : q.grid.Walk q.config.diagonal a path b)
    (ha : q.grid.isWalkable a = true) (hk : s.Knows q a) : s.Knows q b := by
  induction hwalk with
  | stay a => exact hk
  | step hstep _ ih =>
    obtain ⟨_,k,m,hm,htile,-⟩ := hk
    have hclosed : m.tile ∈ s.closed := (hs.alive hm).resolve_right (by simp [hw])
    exact ih hstep.walkable (h.steps hm hclosed _ (by rwa [q.tileOf_eq hg ha htile]))

/-- Where nothing waits, no walk leads to the goal. -/
theorem Reachable.not_walk (hg : q.grid.IsSized) (h : Reachable q start s) (hw : s.waiting = [])
    (path : List Tile) : ¬q.grid.Walk q.config.diagonal start path q.goal := by
  intro hwalk
  have hs := h.isSound hg
  have hspreads := h.spreads hg
  obtain ⟨first,hfirst,hplace,-⟩ := hs.first
  obtain ⟨_,k,m,hm,htile,-⟩ := hspreads.knows_of_walk hg hs hw hwalk h.isPosed.start_walkable
    ⟨_,0,first,hfirst,hplace,Nat.le_refl _⟩
  have hclosed := (hs.alive hm).resolve_right (by simp [hw])
  exact hspreads.goal (htile ▸ hclosed)

end Search

/-- Between walkable tiles of a valid grid a search reports that there is no path only where no legal
walk of any length leads from the one to the other. -/
theorem noPath_means_no_walk {g : Grid} {start goal : Tile} {c : Config} (hvalid : g.validate = .ok ())
    (hstart : g.isWalkable start = true) (hgoal : g.isWalkable goal = true)
    (hs : search g start goal c = some .noPath) (walk : List Tile) :
    ¬g.Walk c.diagonal start walk goal := by
  have hg := Grid.isSized_of_validate hvalid
  rcases search_cases hg start goal c with ⟨-,hblocked⟩ | ⟨hsearch,-⟩ | ⟨s,result,hreach,hends,hsearch⟩
  · exact absurd ⟨hstart,hgoal⟩ hblocked
  · rw [hsearch] at hs
    cases hs
  · rw [hsearch] at hs
    cases hends with
    | noPath hw => exact hreach.not_walk hg hw walk
    | budgetExhausted => cases hs
    | tableFull => cases hs
    | @found e =>
      cases ht : Search.trace g s.nodes s.nodes.length e.node.toNat [] with
      | none =>
        rw [ht] at hs
        cases hs
      | some path =>
        rw [ht] at hs
        cases hs

def cornerGrid : Grid where
  width := 2
  height := 2
  walkable := [9]

theorem cornerGrid_has_no_walk :
    search cornerGrid ⟨0,0⟩ ⟨1,1⟩ { diagonal := true } = some .noPath ∧
      ∀ walk, ¬cornerGrid.Walk true ⟨0,0⟩ walk ⟨1,1⟩ := by
  have hsearch : search cornerGrid ⟨0,0⟩ ⟨1,1⟩ { diagonal := true } = some .noPath := by decide
  exact ⟨hsearch,noPath_means_no_walk (by decide) (by decide) (by decide) hsearch⟩

end Cartridge.Nav
