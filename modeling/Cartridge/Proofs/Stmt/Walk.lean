import Cartridge.Stmt.Basic

/-! Induction over statements, and the statements inside one another. -/
namespace Cartridge.Stmt

/-- Induction over statements, those of a body or branch being covered one by one. -/
@[induction_eliminator]
theorem induction {motive : Stmt → Prop}
    (assign : ∀ target op value loc, motive (.assign target op value loc))
    (cond : ∀ test yes no loc, (∀ s ∈ yes, motive s) → (∀ b ∈ no, ∀ s ∈ b, motive s) →
      motive (.cond test yes no loc))
    (loop : ∀ test body loc, (∀ s ∈ body, motive s) → motive (.loop test body loc))
    (range : ∀ counter first last body loc, (∀ s ∈ body, motive s) →
      motive (.range counter first last body loc))
    (call : ∀ name args loc, motive (.call name args loc))
    (changeScene : ∀ scene loc, motive (.changeScene scene loc))
    (raw : ∀ text loc, motive (.raw text loc))
    (assignIndex : ∀ array subscript op value loc,
      motive (.assignIndex array subscript op value loc))
    (s : Stmt) : motive s :=
  @Stmt.rec motive (fun stmts => ∀ s ∈ stmts, motive s) (fun no => ∀ b ∈ no, ∀ s ∈ b, motive s)
    assign cond loop range call changeScene raw assignIndex
    (by simp) (fun _ _ hs hall => List.forall_mem_cons.mpr ⟨hs,hall⟩)
    (by simp) (fun _ hb => by simpa using hb) s

theorem mem_walkAll {stmts : List Stmt} {b : Stmt} :
    b ∈ walkAll stmts ↔ ∃ a ∈ stmts, b ∈ a.walk := by
  induction stmts with
  | nil => simp [walkAll]
  | cons a stmts ih => simp [walkAll, ih]

end Cartridge.Stmt
