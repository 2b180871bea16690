import Mathlib.Tactic.Common
import Cartridge.Proofs.Nav.Tables

/-!
The tables a search goes through and the four ways it ends. On a sized grid the loop never faults
before it has found the goal: it stops early only where a table is full.
-/
namespace Cartridge.Nav

/-- A question that the loop of a search is entered for. -/
structure Query.IsPosed (q : Query) (start : Tile) : Prop where
  start_walkable : q.grid.isWalkable start = true
  goal_walkable : q.grid.isWalkable q.goal = true
  apart : start ≠ q.goal

namespace Search

/-- The tables a search from a tile goes through. -/
inductive Reachable (q : Query) (start : Tile) : Search → Prop
  | initial (h : q.IsPosed start) : Reachable q start (initial q start)
  | skip {s : Search} {e : Entry} {rest : List Entry} {p : Node} (h : Reachable q start s)
    (hw : s.waiting = e :: rest) (hp : s.nodes[e.node.toNat]? = some p) (hc : p.tile ∈ s.closed) :
    Reachable q start ⟨s.nodes,rest,s.closed⟩
  | expand {s s' : Search} {e : Entry} {rest : List Entry} {p : Node} (h : Reachable q start s)
    (hw : s.waiting = e :: rest) (hp : s.nodes[e.node.toNat]? = some p) (hc : p.tile ∉ s.closed)
    (hgoal : p.tile.toNat ≠ q.grid.index q.goal)
    (he : expand q e.node p ⟨s.nodes,rest,s.closed⟩ = .ok s') : Reachable q start s'

/-- The tables between the turns of the loop, and how many turns of its budget it has taken. -/
inductive After (q : Query) (start : Tile) : Nat → Search → Prop
  | initial (h : q.IsPosed start) : After q start 0 (initial q start)
  | skip {n : Nat} {s : Search} {e : Entry} {rest : List Entry} {p : Node} (h : After q start n s)
    (hn : n < q.config.maxIterations.toNat) (hw : s.waiting = e :: rest)
    (hp : s.nodes[e.node.toNat]? = some p) (hc : p.tile ∈ s.closed) :
    After q start (n + 1) ⟨s.nodes,rest,s.closed⟩
  | expand {n : Nat} {s s' : Search} {e : Entry} {rest : List Entry} {p : Node} (h : After q start n s)
    (hn : n < q.config.maxIterations.toNat) (hw : s.waiting = e :: rest)
    (hp : s.nodes[e.node.toNat]? = some p) (hc : p.tile ∉ s.closed)
    (hgoal : p.tile.toNat ≠ q.grid.index q.goal)
    (he : expand q e.node p ⟨s.nodes,rest,s.closed⟩ = .ok s') : After q start (n + 1) s'

/-- How the loop ends on the last tables it reaches. -/
inductive Ends (q : Query) (s : Search) : Except (Halt Outcome) Outcome → Prop
  | noPath (hw : s.waiting = []) : Ends q s (.ok .noPath)
  | budgetExhausted : Ends q s (.ok .budgetExhausted)
  | found {e : Entry} {rest : List Entry} {p : Node} (hw : s.waiting = e :: rest)
    (hp : s.nodes[e.node.toNat]? = some p) (hc : p.tile ∉ s.closed)
    (hgoal : p.tile.toNat = q.grid.index q.goal) :
    Ends q s ((Halt.ofOption (trace q.grid s.nodes s.nodes.length e.node.toNat [])).map .found)
  | tableFull : Ends q s (.error (.error .tableFull))

variable {q : Query} {start : Tile} {s : Search} {n : Nat}

theorem After.reachable (h : After q start n s) : Reachable q start s := by
  induction h with
  | initial h => exact .initial h
  | skip _ _ hw hp hc ih => exact ih.skip hw hp hc
  | expand _ _ hw hp hc hgoal he ih => exact ih.expand hw hp hc hgoal he

theorem After.turns_le (h : After q start n s) : n ≤ q.config.maxIterations.toNat := by
  cases h with
  | initial => exact Nat.zero_le _
  | skip _ hn => exact hn
  | expand _ hn => exact hn

theorem Reachable.isPosed (h : Reachable q start s) : q.IsPosed start := by
  induction h with
  | initial h => exact h
  | skip _ _ _ _ ih => exact ih
  | expand _ _ _ _ _ _ ih => exact ih

/-- What holds when a node is closed and is kept by entering nodes holds after each look at a neighbour. -/
theorem IsSound.looking_induction (hg : q.grid.IsSized) (hgoal : q.grid.contains q.goal = true)
    {motive : List Direction → Search → Prop} (hs : s.IsSound q start) {e : Entry} {rest : List Entry}
    (hw : s.waiting = e :: rest) {p : Node} (hp : s.nodes[e.node.toNat]? = some p)
    (hc : p.tile ∉ s.closed)
    (close : motive [] ⟨s.nodes,rest,p.tile :: s.closed⟩)
    (blocked : ∀ {done s d}, motive done s → q.grid.allows (q.tileOf p) d = false → motive (d :: done) s)
    (visited : ∀ {done s s' d}, s.Expands q start e.node p → motive done s → d ∈ q.config.directions →
      q.grid.allows (q.tileOf p) d = true → Visited q p (d.apply (q.tileOf p)) s s' →
      motive (d :: done) s')
    {ds : List Direction} (hds : ds ⊆ q.config.directions) {s' : Search}
    (hf : ds.foldlM (visit q e.node p (q.tileOf p)) ⟨s.nodes,rest,p.tile :: s.closed⟩ = .ok s') :
    s'.Expands q start e.node p ∧ motive ds.reverse s' := by
  have hdone := Expands.foldlM_visit hg hgoal blocked visited (fun _ hd => hds hd) (hs.close hw hp hc) close hf
  rwa [List.append_nil] at hdone

/-- What holds when a node is closed and is kept by entering nodes holds after the expansion. -/
theorem IsSound.expand_induction (hg : q.grid.IsSized) (hgoal : q.grid.contains q.goal = true)
    {motive : List Direction → Search → Prop} (hs : s.IsSound q start) {e : Entry} {rest : List Entry}
    (hw : s.waiting = e :: rest) {p : Node} (hp : s.nodes[e.node.toNat]? = some p)
    (hc : p.tile ∉ s.closed)
    (close : motive [] ⟨s.nodes,rest,p.tile :: s.closed⟩)
    (blocked : ∀ {done s d}, motive done s → q.grid.allows (q.tileOf p) d = false → motive (d :: done) s)
    (visited : ∀ {done s s' d}, s.Expands q start e.node p → motive done s → d ∈ q.config.directions →
      q.grid.allows (q.tileOf p) d = true → Visited q p (d.apply (q.tileOf p)) s s' →
      motive (d :: done) s')
    {s' : Search} (he : Search.expand q e.node p ⟨s.nodes,rest,s.closed⟩ = .ok s') :
    s'.Expands q start e.node p ∧ motive q.config.directions.reverse s' := by
  rw [expand_eq hg] at he
  exact hs.looking_induction hg hgoal hw hp hc close blocked visited (List.Subset.refl _) he

/-- The tables are sound at every turn. -/
theorem Reachable.isSound (hg : q.grid.IsSized) (h : Reachable q start s) : s.IsSound q start := by
  have hgoal := Grid.contains_of_isWalkable h.isPosed.goal_walkable
  induction h with
  | initial h => exact isSound_initial hg h.start_walkable hgoal
  | skip _ hw hp hc ih => exact ih.skip hw hp hc
  | expand _ hw hp hc _ he ih =>
    have hexpands := ih.expand_induction hg hgoal (motive := fun _ _ => True) hw hp hc trivial
      (fun _ _ => trivial) (fun _ _ _ _ _ => trivial) he
    exact hexpands.1.sound

private theorem reach_ne_fault (q : Query) (parent : UInt8) (next : Tile) (cost : UInt16) (s : Search) :
    s.reach q parent next cost ≠ .error .fault := by
  intro h
  unfold reach at h
  simp only at h
  split at h <;> split_ifs at h <;> cases h

private theorem visit_ne_fault (hg : q.grid.IsSized) (current : UInt8) (p : Node) (t : Tile) (s : Search)
    (d : Direction) : visit q current p t s d ≠ .error .fault := by
  rw [visit_eq hg]
  split_ifs
  · simp
  · exact reach_ne_fault q current _ _ s
  · simp

private theorem expand_ne_fault (hg : q.grid.IsSized) (current : UInt8) (p : Node) (s : Search) :
    expand q current p s ≠ .error .fault := by
  rw [expand_eq hg]
  generalize Search.mk s.nodes s.waiting (p.tile :: s.closed) = s
  induction q.config.directions generalizing s with
  | nil => simp [pure, Except.pure]
  | cons d ds ih =>
    rw [List.foldlM_cons]
    cases hv : visit q current p (q.tileOf p) s d with
    | error err =>
      rintro hfault
      cases hfault
      exact visit_ne_fault hg current p _ s d hv
    | ok next => exact ih next

/-- An expansion that fails has found a table full. -/
theorem eq_tableFull_of_expand (hg : q.grid.IsSized) {current : UInt8} {p : Node}
    {err : Halt Outcome} (he : expand q current p s = .error err) : err = .error .tableFull := by
  cases err with
  | error o => rw [fillsOnly_expand q current p s o he]
  | fault => exact absurd he (expand_ne_fault hg current p s)

theorem run_nil (q : Query) (budget : Nat) (hw : s.waiting = []) :
    run q budget s = .ok .noPath := by
  obtain ⟨nodes,waiting,closed⟩ := s
  obtain rfl : waiting = [] := hw
  cases budget <;> rfl

theorem run_zero {e : Entry} {rest : List Entry} (hw : s.waiting = e :: rest) :
    run q 0 s = .ok .budgetExhausted := by
  obtain ⟨nodes,waiting,closed⟩ := s
  obtain rfl : waiting = e :: rest := hw
  rfl

/-- From tables between its turns, the loop goes on to others and ends there. -/
theorem After.run_ends (hg : q.grid.IsSized) (h : After q start n s) {budget : Nat}
    (hbudget : n + budget = q.config.maxIterations.toNat) :
    ∃ m last, After q start m last ∧ Ends q last (run q budget s) := by
  induction budget generalizing n s with
  | zero =>
    refine ⟨n,s,h,?_⟩
    cases hw : s.waiting with
    | nil =>
      rw [run_nil q 0 hw]
      exact .noPath hw
    | cons e rest =>
      rw [run_zero hw]
      exact .budgetExhausted
  | succ budget ih =>
    cases hw : s.waiting with
    | nil =>
      refine ⟨n,s,h,?_⟩
      rw [run_nil q _ hw]
      exact .noPath hw
    | cons e rest =>
      have hs := h.reachable.isSound hg
      have hn : n < q.config.maxIterations.toNat := by omega
      have hrest : n + 1 + budget = q.config.maxIterations.toNat := by omega
      obtain ⟨p,hp,-⟩ := hs.entry e (hw ▸ List.mem_cons_self)
      rw [hs.run_succ hg hw hp]
      split_ifs with hclosed hgoal
      · exact ih (h.skip hn hw hp hclosed) hrest
      · exact ⟨n,s,h,.found hw hp hclosed hgoal⟩
      · cases he : Search.expand q e.node p ⟨s.nodes,rest,s.closed⟩ with
        | ok next => exact ih (h.expand hn hw hp hclosed hgoal he) hrest
        | error err =>
          obtain rfl := eq_tableFull_of_expand hg he
          exact ⟨n,s,h,.tableFull⟩

/-- The loop ends on tables that it reaches within its budget. -/
theorem exists_after_ends (hg : q.grid.IsSized) (h : q.IsPosed start) :
    ∃ n s, After q start n s ∧ Ends q s (run q q.config.maxIterations.toNat (initial q start)) :=
  (After.initial h).run_ends hg (Nat.zero_add _)

end Search

/-- A search answers at once, or its loop reaches tables on which it ends with the answer. -/
theorem search_cases {g : Grid} (hg : g.IsSized) (start goal : Tile) (c : Config) :
    (search g start goal c = some .noPath ∧ ¬(g.isWalkable start = true ∧ g.isWalkable goal = true)) ∨
      (search g start goal c = some (.found []) ∧ start = goal) ∨
      ∃ s result, Search.Reachable ⟨g,c,goal⟩ start s ∧ Search.Ends ⟨g,c,goal⟩ s result ∧
        search g start goal c = match result with
          | .ok outcome => some outcome
          | .error (.error outcome) => some outcome
          | .error .fault => none := by
  rw [search_eq hg]
  split_ifs with hwalkable heq
  · exact .inr (.inl ⟨rfl,heq⟩)
  · have hposed : Query.IsPosed ⟨g,c,goal⟩ start := ⟨hwalkable.1,hwalkable.2,heq⟩
    obtain ⟨n,s,hs,hends⟩ := Search.exists_after_ends hg hposed
    exact .inr (.inr ⟨s,_,hs.reachable,hends,rfl⟩)
  · exact .inl ⟨rfl,hwalkable⟩

end Cartridge.Nav
