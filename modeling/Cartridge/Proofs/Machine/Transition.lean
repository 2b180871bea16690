import Cartridge.Machine.Emit
import Cartridge.Proofs.Recorder.Meaning

/-!
Which transition a state is left by. The conditions of its transitions are tested in the order of
declaration, and the first that is true has its transition taken; those behind it are not looked at.
-/
namespace Cartridge.Machine.Emit

open Code Recorder Stmt

variable {σ : Type}

def fire (m : Machine) (tr : Transition) : Stmt :=
  .call (Name.ident m.name ++ "_transition") [.var (Name.state m.name tr.target)] none

/-- Tests the conditions of transitions in order and takes the first whose condition is true. Where none
is, only the tests have been made. -/
def depart (w : World σ) (m : Machine) : List Transition → σ → σ
  | [],t => t
  | tr :: rest,t =>
    match w.test tr.test t with
    | (true,t) => w.perform (fire m tr) t
    | (false,t) => depart w m rest t

def arms (m : Machine) (trs : List Transition) : List (Expr × List Stmt) :=
  trs.map fun tr => (tr.test,[fire m tr])

/-- A chain is a ladder without a last branch. -/
theorem chain_cons (m : Machine) (tr : Transition) (rest : List Transition) :
    chain m (tr :: rest) = some (ladder none (tr.test,[fire m tr]) (arms m rest)) := by
  induction rest generalizing tr with
  | nil => rfl
  | cons next rest ih =>
    rw [chain, ih next]
    rfl

theorem chain_eq_none {m : Machine} {trs : List Transition} : chain m trs = none ↔ trs = [] := by
  cases trs <;> simp [chain]

/-- A call is performed in one step. -/
theorem reaches_fire (w : World σ) (m : Machine) (tr : Transition) (after : List Stmt) (t : σ) :
    w.Reaches (fire m tr :: after,t) (after,w.perform (fire m tr) t) := .single rfl

/-- To execute what stands under the first true condition is to take its transition. -/
theorem reaches_depart (w : World σ) (m : Machine) (trs : List Transition) (after : List Stmt) (t : σ) :
    w.Reaches ((w.firstTrue (arms m trs) t).1.getD [] ++ after,(w.firstTrue (arms m trs) t).2)
      (after,depart w m trs t) := by
  induction trs generalizing t with
  | nil => exact .refl
  | cons tr rest ih =>
    rw [arms, List.map_cons, World.firstTrue, depart]
    rcases w.test tr.test t with ⟨_ | _,t'⟩
    · exact ih t'
    · exact reaches_fire w m tr after t'

/-- A state has a chain unless no transition leaves it. Whatever the conditions come to, and whatever
the tests change, executing the chain tests the conditions of the transitions that leave the state in the
order of declaration, up to the first that is true, and then does nothing but call the change to the
target of that transition. -/
theorem first_declared_transition_is_taken (m : Machine) (state : State) :
    (chain m (leaving m state) = none ↔ ∀ tr ∈ m.transitions, tr.source ≠ state.name) ∧
      ∀ (σ : Type) (w : World σ) (t : σ) (after : List Stmt),
        w.Reaches ((chain m (leaving m state)).toList ++ after,t)
          (after,depart w m (m.transitions.filter fun tr => tr.source = state.name) t) := by
  refine ⟨?_,fun σ w t after => ?_⟩
  · simp [chain_eq_none, leaving]
  · change w.Reaches _ (after,depart w m (leaving m state) t)
    cases leaving m state with
    | nil => exact .refl
    | cons tr rest =>
      rw [chain_cons]
      exact (reaches_ladder w none _ _ after t).trans (reaches_depart w m (tr :: rest) after t)

end Cartridge.Machine.Emit
