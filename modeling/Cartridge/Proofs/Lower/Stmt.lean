import Cartridge.Lower.Stmt
import Cartridge.Proofs.Code.Emission
import Cartridge.Proofs.Stmt.Walk

/-!
Statements on their way to C. Lowering them never faults, and if no problem is noted then every scene
they change to is declared.
-/
namespace Cartridge

namespace Lower

open Code Code.Emission

variable {s : Scope}

theorem block_eq_each (stmts : List Stmt) : block s stmts = each (stmt s) stmts := by
  induction stmts with
  | nil => rfl
  | cons a stmts ih => rw [block, ih, each]

/-- A branch that is no single conditional is put under an `else`. -/
theorem branch_else {stmts : List Stmt} (h : ∀ test yes no loc, stmts ≠ [.cond test yes no loc]) :
    branch s (some stmts) = (do reopen elseText; block s stmts) := by
  rw [branch]
  exact fun test yes no loc he => h test yes no loc he

/-- Induction over statements and branches, where a branch that is a single conditional goes on with
the chain. -/
theorem induction {motive : Stmt → Prop} {onBranch : Option (List Stmt) → Prop}
    (assign : ∀ target op value loc, motive (.assign target op value loc))
    (cond : ∀ test yes no loc, (∀ a ∈ yes, motive a) → onBranch no → motive (.cond test yes no loc))
    (loop : ∀ test body loc, (∀ a ∈ body, motive a) → motive (.loop test body loc))
    (range : ∀ counter first last body loc, (∀ a ∈ body, motive a) →
      motive (.range counter first last body loc))
    (call : ∀ name args loc, motive (.call name args loc))
    (changeScene : ∀ scene loc, motive (.changeScene scene loc))
    (raw : ∀ text loc, motive (.raw text loc))
    (assignIndex : ∀ array subscript op value loc,
      motive (.assignIndex array subscript op value loc))
    (absent : onBranch none)
    (chain : ∀ test yes no loc, (∀ a ∈ yes, motive a) → onBranch no →
      onBranch (some [.cond test yes no loc]))
    (other : ∀ stmts, (∀ test yes no loc, stmts ≠ [.cond test yes no loc]) →
      (∀ a ∈ stmts, motive a) → onBranch (some stmts)) : (∀ a, motive a) ∧ ∀ no, onBranch no := by
  have hbranch : ∀ no : Option (List Stmt),
      (∀ b ∈ no, ∀ a ∈ b, motive a ∧ onBranch (some [a])) → onBranch no
    | none, _ => absent
    | some [], _ => other [] (by simp) nofun
    | some [a], h => (h [a] rfl a (by simp)).2
    | some (a :: b :: stmts), h => other _ (by simp) fun c hc => (h _ rfl c hc).1
  have hsingle (a : Stmt) (ha : motive a) (h : ∀ test yes no loc, a ≠ .cond test yes no loc) :
      motive a ∧ onBranch (some [a]) :=
    ⟨ha,other [a] (by simpa using h) (by simpa using ha)⟩
  have hstmt (a : Stmt) : motive a ∧ onBranch (some [a]) := by
    induction a with
    | assign => exact hsingle _ (assign ..) (by simp)
    | cond test yes no loc hyes hno =>
      have hyes := fun a ha => (hyes a ha).1
      exact ⟨cond test yes no loc hyes (hbranch no hno),chain test yes no loc hyes (hbranch no hno)⟩
    | loop test body loc hbody => exact hsingle _ (loop _ _ _ fun a ha => (hbody a ha).1) (by simp)
    | range counter first last body loc hbody =>
      exact hsingle _ (range _ _ _ _ _ fun a ha => (hbody a ha).1) (by simp)
    | call => exact hsingle _ (call ..) (by simp)
    | changeScene => exact hsingle _ (changeScene ..) (by simp)
    | raw => exact hsingle _ (raw ..) (by simp)
    | assignIndex => exact hsingle _ (assignIndex ..) (by simp)
  exact ⟨fun a => (hstmt a).1,fun no => hbranch no fun b _ a _ => hstmt a⟩

private theorem faultless_all :
    (∀ a, (stmt s a).Faultless) ∧ ∀ no, (branch s no).Faultless := by
  have hblock {stmts : List Stmt} (h : ∀ a ∈ stmts, (stmt s a).Faultless) :
      (block s stmts).Faultless := block_eq_each stmts ▸ .each h
  apply Lower.induction
  case assign => simp [stmt, origin]
  case cond =>
    intro test yes no loc hyes hno
    simp [stmt, origin, hblock hyes, hno]
  case loop =>
    intro test body loc hbody
    simp [stmt, origin, hblock hbody]
  case range =>
    intro counter first last body loc hbody
    simp [stmt, origin, hblock hbody]
  case call => simp [stmt, origin]
  case changeScene =>
    intro scene loc
    rw [stmt]
    cases s.game.sceneIndex? scene <;> simp [origin, problem]
  case raw => simp [stmt, origin]
  case assignIndex => simp [stmt, origin]
  case absent => simp [branch]
  case chain =>
    intro test yes no loc hyes hno
    simp [branch, origin, hblock hyes, hno]
  case other =>
    intro stmts hother hstmts
    simp [branch_else hother, hblock hstmts]

@[simp] theorem faultless_block (stmts : List Stmt) : (block s stmts).Faultless :=
  block_eq_each stmts ▸ .each fun a _ => faultless_all.1 a

/-- The scene of every change inside a statement is declared. -/
def Settled (s : Scope) (a : Stmt) : Prop :=
  ∀ scene loc, .changeScene scene loc ∈ a.walk → (s.game.sceneIndex? scene).isSome

private theorem settled_cond {test : Expr} {yes : List Stmt} {no : Option (List Stmt)}
    {loc : Option Location} (hyes : ∀ a ∈ yes, Settled s a) (hno : ∀ b ∈ no, ∀ a ∈ b, Settled s a) :
    Settled s (.cond test yes no loc) := by
  intro scene place hmem
  cases no with
  | none =>
    obtain ⟨a,ha,hmem⟩ := Stmt.mem_walkAll.mp (by simpa [Stmt.walk] using hmem)
    exact hyes a ha scene place hmem
  | some b =>
    rw [Stmt.walk, List.mem_append, List.mem_cons] at hmem
    rcases hmem with (hmem | hmem) | hmem
    · cases hmem
    · obtain ⟨a,ha,hmem⟩ := Stmt.mem_walkAll.mp hmem
      exact hyes a ha scene place hmem
    · obtain ⟨a,ha,hmem⟩ := Stmt.mem_walkAll.mp hmem
      exact hno b rfl a ha scene place hmem

private theorem settled_body {a : Stmt} {body : List Stmt} (hwalk : a.walk = a :: Stmt.walkAll body)
    (ha : ∀ scene loc, a ≠ .changeScene scene loc) (hbody : ∀ a ∈ body, Settled s a) :
    Settled s a := by
  intro scene place hmem
  rcases List.mem_cons.mp (hwalk ▸ hmem) with he | hmem
  · exact absurd he.symm (ha scene place)
  · obtain ⟨b,hb,hmem⟩ := Stmt.mem_walkAll.mp hmem
    exact hbody b hb scene place hmem

private theorem settled_of_clean_all :
    (∀ a, (stmt s a).Clean → Settled s a) ∧
      ∀ no, (branch s no).Clean → ∀ b ∈ no, ∀ a ∈ b, Settled s a := by
  have hblock {stmts : List Stmt} (h : ∀ a ∈ stmts, (stmt s a).Clean → Settled s a)
      (hclean : (block s stmts).Clean) : ∀ a ∈ stmts, Settled s a := by
    rw [block_eq_each, clean_each] at hclean
    exact fun a ha => h a ha (hclean a ha)
  apply Lower.induction
  case assign => simp [Settled, Stmt.walk]
  case cond =>
    intro test yes no loc hyes hno hclean
    simp only [stmt, clean_bind, clean_ofExcept_bind] at hclean
    obtain ⟨-,_,-,-,hcleanYes,hcleanNo,-⟩ := hclean
    exact settled_cond (hblock hyes hcleanYes) (hno hcleanNo)
  case loop =>
    intro test body loc hbody hclean
    simp only [stmt, clean_bind, clean_ofExcept_bind] at hclean
    obtain ⟨-,_,-,-,hcleanBody,-⟩ := hclean
    exact settled_body (by rw [Stmt.walk]) (by simp) (hblock hbody hcleanBody)
  case range =>
    intro counter first last body loc hbody hclean
    simp only [stmt, clean_bind] at hclean
    obtain ⟨-,-,hcleanBody,-⟩ := hclean
    exact settled_body (by rw [Stmt.walk]) (by simp) (hblock hbody hcleanBody)
  case call => simp [Settled, Stmt.walk]
  case changeScene =>
    intro scene loc hclean other place hmem
    simp only [Stmt.walk, List.mem_singleton, Stmt.changeScene.injEq] at hmem
    rw [hmem.1]
    cases h : s.game.sceneIndex? scene with
    | some i => rfl
    | none => simp [stmt, h] at hclean
  case raw => simp [Settled, Stmt.walk]
  case assignIndex => simp [Settled, Stmt.walk]
  case absent => simp
  case chain =>
    rintro test yes no loc hyes hno hclean _ ⟨⟩
    simp only [branch, clean_bind, clean_ofExcept_bind] at hclean
    obtain ⟨_,-,-,-,hcleanYes,hcleanNo⟩ := hclean
    simpa using settled_cond (hblock hyes hcleanYes) (hno hcleanNo)
  case other =>
    rintro stmts hother hstmts hclean _ ⟨⟩
    rw [branch_else hother, clean_bind] at hclean
    exact hblock hstmts hclean.2

/-- A statement without a problem only changes to declared scenes. -/
theorem settled_of_clean {a : Stmt} (h : (stmt s a).Clean) : Settled s a := settled_of_clean_all.1 a h

end Lower

end Cartridge
