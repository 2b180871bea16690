import Mathlib.Computability.StateTransition
import Cartridge.Stmt.Basic

/-!
Execution of statements, one step at a time. What conditions come to and what single statements do is
left open, so that everything said here holds for all of it.
-/
namespace Cartridge.Stmt

/-- Where statements are executed. A test may change the state as well, since conditions may hold
calls. -/
structure World (σ : Type) where
  test : Expr → σ → Bool × σ
  /-- Gives a counter its next value. -/
  count : String → Int32 → σ → σ
  /-- Executes a statement that has no others inside. -/
  perform : Stmt → σ → σ

namespace World

variable {σ : Type} (w : World σ)

/-- One step. The statements are those still to be executed, in order. -/
def step : List Stmt × σ → Option (List Stmt × σ)
  | ([],_) => none
  | (.cond test yes no _ :: rest,t) =>
    let (outcome,t) := w.test test t
    some ((if outcome then yes else no.getD []) ++ rest,t)
  | (.loop test body loc :: rest,t) =>
    let (outcome,t) := w.test test t
    some (if outcome then body ++ .loop test body loc :: rest else rest,t)
  | (.range counter first last body loc :: rest,t) =>
    if first < last then
      some (body ++ .range counter (first + 1) last body loc :: rest,w.count counter first t)
    else some (rest,t)
  | (a :: rest,t) => some (rest,w.perform a t)

abbrev Reaches : List Stmt × σ → List Stmt × σ → Prop := StateTransition.Reaches w.step

/-- Tests conditions in order up to the first that is true, and gives back what stands under it. -/
def firstTrue : List (Expr × List Stmt) → σ → Option (List Stmt) × σ
  | [],t => (none,t)
  | (test,body) :: arms,t =>
    match w.test test t with
    | (true,t) => (some body,t)
    | (false,t) => firstTrue arms t

variable {w}

theorem reaches_cond (test : Expr) (yes : List Stmt) (no : Option (List Stmt)) (loc : Option Location)
    (rest : List Stmt) (t : σ) :
    w.Reaches (.cond test yes no loc :: rest,t)
      ((if (w.test test t).1 then yes else no.getD []) ++ rest,(w.test test t).2) := .single rfl

end World

end Cartridge.Stmt
