import Cartridge.Proofs.Game.Erase
import Cartridge.Proofs.Lower.Stmt

/-!
Lowering statements without their places gives the same code. A place only ever becomes a mark for
the next line or a part of a diagnostic.
-/
namespace Cartridge.Lower

open Code Code.Emission

/-- A scope without places: the game has none, and none are recorded. -/
def Scope.erase (s : Scope) : Scope := ⟨s.game.erase, { s.options with sourceMap := false }⟩

variable {s : Scope}

section expressions

mutual

theorem guardIndices_erase : ∀ e : Expr, guardIndices s.erase e = guardIndices s e
  | .int _ | .str _ | .var _ => rfl
  | .index array e => by
    rw [guardIndices, guardIndices, guardIndices_erase e]
    rfl
  | .binary op l r => by rw [guardIndices, guardIndices, guardIndices_erase l, guardIndices_erase r]
  | .unary op e => by rw [guardIndices, guardIndices, guardIndices_erase e]
  | .call name args => by rw [guardIndices, guardIndices, guardAll_erase args]
  | .ternary c y n => by
    rw [guardIndices, guardIndices, guardIndices_erase c, guardIndices_erase y,
      guardIndices_erase n]

theorem guardAll_erase : ∀ es : List Expr, guardAll s.erase es = guardAll s es
  | [] => rfl
  | e :: es => by rw [guardAll, guardAll, guardIndices_erase e, guardAll_erase es]

end

theorem exprText_erase (d : Domain) (e : Expr) : exprText s.erase d e = exprText s d e := by
  rw [exprText, exprText, guardIndices_erase]
  rfl

theorem condText_erase (e : Expr) : condText s.erase e = condText s e := exprText_erase _ e

theorem subscriptText_erase (array : String) (e : Expr) :
    subscriptText s.erase array e = subscriptText s array e := by
  rw [subscriptText, subscriptText, guardIndices_erase]
  rfl

end expressions

/-- Only a single conditional is one without places. -/
theorem erase_ne_cond {stmts : List Stmt} (h : ∀ test yes no loc, stmts ≠ [.cond test yes no loc])
    (test : Expr) (yes : List Stmt) (no : Option (List Stmt)) (loc : Option Location) :
    Stmt.eraseAll stmts ≠ [.cond test yes no loc] := by
  rcases stmts with _ | ⟨a,_ | ⟨b,stmts⟩⟩
  · simp [Stmt.eraseAll]
  · cases a with
    | cond test yes no loc => exact absurd rfl (h test yes no loc)
    | _ => simp [Stmt.eraseAll, Stmt.erase]
  · simp [Stmt.eraseAll]

private theorem alike_all :
    (∀ a : Stmt, (stmt s a).Alike (stmt s.erase a.erase)) ∧
      ∀ no, (branch s no).Alike (branch s.erase (Stmt.eraseBranch no)) := by
  have hblock {stmts : List Stmt} (h : ∀ a ∈ stmts, (stmt s a).Alike (stmt s.erase a.erase)) :
      (block s stmts).Alike (block s.erase (Stmt.eraseAll stmts)) := by
    rw [block_eq_each, block_eq_each, Stmt.eraseAll_eq_map, each_map]
    exact .each h
  apply Lower.induction
  case assign =>
    intro target op value loc
    rw [Stmt.erase, stmt, stmt, exprText_erase]
    exact (alike_origin _ _).bind_left
  case cond =>
    intro test yes no loc hyes hno
    rw [Stmt.erase, stmt, stmt, condText_erase]
    exact (alike_origin _ _).bind fun _ => .bind_right fun _ => .bind_right fun _ =>
      (hblock hyes).bind fun _ => hno.bind_left
  case loop =>
    intro test body loc hbody
    rw [Stmt.erase, stmt, stmt, condText_erase]
    exact (alike_origin _ _).bind fun _ => .bind_right fun _ => .bind_right fun _ =>
      (hblock hbody).bind_left
  case range =>
    intro counter first last body loc hbody
    rw [Stmt.erase, stmt, stmt]
    exact (alike_origin _ _).bind fun _ => .bind_right fun _ =>
      (hblock hbody).bind_left
  case call =>
    intro name args loc
    rw [Stmt.erase, stmt, stmt, exprText_erase]
    exact (alike_origin _ _).bind_left
  case changeScene =>
    intro scene loc
    rw [Stmt.erase, stmt, stmt, Scope.erase, Game.sceneIndex?_erase]
    refine (alike_origin _ _).bind fun _ => ?_
    cases s.game.sceneIndex? scene with
    | some i => exact .refl _
    | none => exact alike_problem _ _ _ _
  case raw =>
    intro text loc
    rw [Stmt.erase, stmt, stmt]
    exact (alike_origin _ _).bind_left
  case assignIndex =>
    intro array subscript op value loc
    rw [Stmt.erase, stmt, stmt, subscriptText_erase, exprText_erase]
    exact (alike_origin _ _).bind_left
  case absent => exact .refl _
  case chain =>
    intro test yes no loc hyes hno
    rw [Stmt.eraseBranch, Stmt.eraseAll, Stmt.eraseAll, Stmt.erase, branch, branch, condText_erase]
    exact .bind_right fun _ => (alike_origin _ _).bind fun _ => .bind_right fun _ =>
      (hblock hyes).bind fun _ => hno
  case other =>
    intro stmts hother hstmts
    rw [Stmt.eraseBranch, branch_else hother, branch_else (erase_ne_cond hother)]
    exact .bind_right fun _ => hblock hstmts

/-- Places make no difference to the code of statements. -/
theorem alike_block (stmts : List Stmt) :
    (block s stmts).Alike (block s.erase (Stmt.eraseAll stmts)) := by
  rw [block_eq_each, block_eq_each, Stmt.eraseAll_eq_map, each_map]
  exact .each fun a _ => alike_all.1 a

end Cartridge.Lower
