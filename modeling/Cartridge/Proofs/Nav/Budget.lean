import Cartridge.Proofs.Nav.Moment

/-!
What the budget of a search decides. The loop asks first whether anything waits and then whether a turn is left, and
a turn itself does not look at the budget; so two searches with different budgets take the same turns until the
smaller budget is spent, and only the answer that it was spent can change with a larger one.
-/
namespace Cartridge.Nav

def Query.withBudget (q : Query) (budget : UInt16) : Query :=
  { q with config := { q.config with maxIterations := budget } }

namespace Search

variable {q : Query} {s : Search} {b b' : Nat}

/-- One turn of the loop: the outcome it ends with, or the tables it goes on with. -/
def turn (q : Query) (s : Search) : Except (Halt Outcome) (Outcome ⊕ Search) :=
  match s.waiting with
  | [] => .ok (.inl .noPath)
  | e :: rest => do
    let s := { s with waiting := rest }
    let node ← Halt.ofOption s.nodes[e.node.toNat]?
    if ← Halt.ofOption (s.isClosed? node.tile) then return .inr s
    else if node.tile.toNat = q.grid.index q.goal then
      return .inl (.found (← Halt.ofOption (trace q.grid s.nodes s.nodes.length e.node.toNat [])))
    else return .inr (← s.expand q e.node node)

/-- The loop takes a turn, and goes on with one turn less. -/
theorem run_eq_turn (q : Query) (b : Nat) (s : Search) :
    run q (b + 1) s = (turn q s).bind (Sum.elim .ok (run q b)) := by
  obtain ⟨nodes,waiting,closed⟩ := s
  cases waiting with
  | nil => rfl
  | cons e rest =>
    simp only [run, turn]
    cases Halt.ofOption nodes[e.node.toNat]? with
    | error err => rfl
    | ok node =>
      simp only [bind, Except.bind]
      cases Halt.ofOption (isClosed? ⟨nodes,rest,closed⟩ node.tile) with
      | error err => rfl
      | ok known =>
        dsimp only
        split_ifs
        · rfl
        · cases Halt.ofOption (trace q.grid nodes nodes.length e.node.toNat []) <;> rfl
        · cases expand q e.node node ⟨nodes,rest,closed⟩ <;> rfl

/-- A turn does not look at the budget. -/
theorem turn_withBudget (q : Query) (budget : UInt16) : turn (q.withBudget budget) = turn q := rfl

theorem run_withBudget (q : Query) (budget : UInt16) (b : Nat) (s : Search) :
    run (q.withBudget budget) b s = run q b s := by
  induction b generalizing s with
  | zero =>
    cases hw : s.waiting with
    | nil => rw [run_nil _ 0 hw, run_nil _ 0 hw]
    | cons e rest => rw [run_zero hw, run_zero hw]
  | succ b ih =>
    have hrest : run (q.withBudget budget) b = run q b := funext ih
    rw [run_eq_turn, run_eq_turn, turn_withBudget, hrest]

/-- An answer other than that the budget is spent is given again with a larger budget: by induction on the turns that
are left of the smaller one. -/
theorem run_of_le (hle : b ≤ b') (h : run q b s ≠ .ok .budgetExhausted) : run q b' s = run q b s := by
  induction b generalizing b' s with
  | zero =>
    cases hw : s.waiting with
    | nil => rw [run_nil q b' hw, run_nil q 0 hw]
    | cons e rest => exact absurd (run_zero hw) h
  | succ b ih =>
    obtain ⟨b',rfl⟩ : ∃ less, b' = less + 1 := ⟨b' - 1,by omega⟩
    rw [run_eq_turn] at h ⊢
    rw [run_eq_turn]
    cases hturn : turn q s with
    | error err => rfl
    | ok result =>
      rw [hturn] at h
      cases result with
      | inl outcome => rfl
      | inr next => exact ih (Nat.le_of_succ_le_succ hle) h

end Search

/-- A search that gets as far as its loop only counts the budget there. -/
theorem search_of_isPosed {g : Grid} (hg : g.IsSized) {start goal : Tile} {c : Config}
    (h : Query.IsPosed ⟨g,c,goal⟩ start) (b : UInt16) :
    search g start goal { c with maxIterations := b } =
      match Search.run ⟨g,c,goal⟩ b.toNat (Search.initial ⟨g,c,goal⟩ start) with
      | .ok outcome => some outcome
      | .error (.error outcome) => some outcome
      | .error .fault => none := by
  rw [search_eq hg, if_pos ⟨h.start_walkable,h.goal_walkable⟩, if_neg h.apart,
    ← Search.run_withBudget ⟨g,c,goal⟩ b]
  rfl

/-- On a valid grid, a search that gives another answer than that its budget is spent gives the same answer with a
larger budget. -/
theorem larger_budget_keeps_outcome {g : Grid} (hvalid : g.validate = .ok ()) (start goal : Tile) (c : Config)
    {b b' : UInt16} (hle : b ≤ b')
    (h : search g start goal { c with maxIterations := b } ≠ some .budgetExhausted) :
    ∃ outcome, search g start goal { c with maxIterations := b } = some outcome ∧
      search g start goal { c with maxIterations := b' } = some outcome := by
  have hg := Grid.isSized_of_validate hvalid
  obtain ⟨outcome,hsearch⟩ := exists_outcome hg start goal { c with maxIterations := b }
  refine ⟨outcome,hsearch,?_⟩
  rw [← hsearch]
  by_cases hwalkable : g.isWalkable start = true ∧ g.isWalkable goal = true
  · by_cases heq : start = goal
    · rw [search_eq hg, search_eq hg, if_pos hwalkable, if_pos hwalkable, if_pos heq, if_pos heq]
    · have hposed : Query.IsPosed ⟨g,c,goal⟩ start := ⟨hwalkable.1,hwalkable.2,heq⟩
      rw [search_of_isPosed hg hposed] at h
      rw [search_of_isPosed hg hposed, search_of_isPosed hg hposed]
      rw [Search.run_of_le (UInt16.le_iff_toNat_le.mp hle) fun hspent => h (by rw [hspent])]
  · rw [search_eq hg, search_eq hg, if_neg hwalkable, if_neg hwalkable]

theorem pondGrid_larger_budget :
    search pondGrid ⟨0,0⟩ ⟨2,0⟩ { diagonal := true, maxIterations := 6 } = some .budgetExhausted ∧
      ∃ outcome, search pondGrid ⟨0,0⟩ ⟨2,0⟩ { diagonal := true, maxIterations := 20 } = some outcome ∧
        search pondGrid ⟨0,0⟩ ⟨2,0⟩ { diagonal := true, maxIterations := 256 } = some outcome :=
  ⟨by decide,larger_budget_keeps_outcome (by decide) _ _ { diagonal := true } (by decide) (by decide)⟩

end Cartridge.Nav
