import Cartridge.LogicBlock
import Cartridge.Proofs.Expr.Substitute
import Cartridge.Proofs.Stmt.Walk

/-!
Copies of statements and of logic blocks. A copy is visited as the statements are, and has their
expressions with the bound names replaced, so no parameter is left in it unless an argument reads it.
-/
namespace Cartridge

namespace Stmt
variable {s : Substitution}

def exprs : Stmt → List Expr
  | .assign _ _ value _ => [value]
  | .assignIndex _ subscript _ value _ => [subscript,value]
  | .cond test _ _ _ | .loop test _ _ => [test]
  | .call _ args _ => args
  | .range _ _ _ _ _ | .changeScene _ _ | .raw _ _ => []

theorem exprs_substitute (a : Stmt) : (a.substitute s).exprs = a.exprs.map (Expr.substitute s) := by
  cases a with
  | call name args loc => exact Expr.substituteAll_eq_map args
  | _ => rfl

private theorem walkAll_substituteAll_of {stmts : List Stmt}
    (h : ∀ a ∈ stmts, (a.substitute s).walk = a.walk.map (substitute s)) :
    walkAll (substituteAll s stmts) = (walkAll stmts).map (substitute s) := by
  induction stmts with
  | nil => rfl
  | cons a stmts ih =>
    obtain ⟨ha,hstmts⟩ := List.forall_mem_cons.mp h
    rw [substituteAll, walkAll, walkAll, List.map_append, ha, ih hstmts]

/-- A copy is visited as the statement is. -/
theorem walk_substitute (a : Stmt) : (a.substitute s).walk = a.walk.map (substitute s) := by
  induction a with
  | cond test yes no loc hyes hno =>
    have hyes := walkAll_substituteAll_of hyes
    cases no with
    | none => simp only [substitute, substituteBranch, walk, hyes, List.map_cons]
    | some b =>
      have hno := walkAll_substituteAll_of (hno b rfl)
      simp only [substitute, substituteBranch, walk, hyes, hno, List.map_append, List.map_cons]
  | loop test body loc hbody =>
    simp only [substitute, walk, walkAll_substituteAll_of hbody, List.map_cons]
  | range counter first last body loc hbody =>
    simp only [substitute, walk, walkAll_substituteAll_of hbody, List.map_cons]
  | assign | call | changeScene | raw | assignIndex => rfl

/-- The expressions in a copy are those in the statements with the bound names replaced. -/
theorem exprs_substituteAll (stmts : List Stmt) :
    (walkAll (substituteAll s stmts)).flatMap exprs =
      ((walkAll stmts).flatMap exprs).map (Expr.substitute s) := by
  have hwalk : walkAll (substituteAll s stmts) = (walkAll stmts).map (substitute s) :=
    walkAll_substituteAll_of fun a _ => walk_substitute a
  rw [hwalk, List.flatMap_map, List.map_flatMap]
  exact List.flatMap_congr fun a _ => exprs_substitute a

end Stmt

namespace LogicBlock

/-- No parameter of a block is read in a copy of it if no argument reads it. -/
theorem not_mem_vars_expand {b : LogicBlock} {args : List Expr} {stmts : List Stmt}
    (h : b.expand args = .ok stmts) {p : String} (hp : p ∈ b.params) (hargs : ∀ a ∈ args, p ∉ a.vars) :
    ∀ e ∈ (Stmt.walkAll stmts).flatMap Stmt.exprs, p ∉ e.vars := by
  rw [expand] at h
  split at h
  next hlength =>
    cases h
    rw [Stmt.exprs_substituteAll, List.forall_mem_map]
    intro e _ hmem
    rw [Expr.vars_substitute] at hmem
    obtain ⟨name,-,hname⟩ := List.mem_flatMap.mp hmem
    exact Substitution.not_mem_varsFor hlength hp hargs name hname
  next => cases h

/-- Putting expressions in the place of variables puts the variables of the former in the place of the
latter, once and all at a time; does nothing if nothing is bound; and comes to what the expression comes to
where each bound name has the value of what is bound to it, if that has a value. A block with as many
arguments as parameters is copied out, and if no argument reads a parameter then no expression in the copy
does. -/
theorem substitution_is_simultaneous :
    (∀ (s : Substitution) (e : Expr), (e.substitute s).vars = e.vars.flatMap s.varsFor) ∧
      (∀ e : Expr, e.substitute (fun _ => none) = e) ∧
      (∀ (s : Substitution) (ρ : Valuation), (∀ name b, s name = some b → (b.value? ρ).isSome) →
        ∀ e : Expr, (e.substitute s).value? ρ = e.value? (ρ.bind s)) ∧
      ∀ (b : LogicBlock) (args : List Expr), args.length = b.params.length →
        (∀ a ∈ args, ∀ p ∈ b.params, p ∉ a.vars) → ∃ stmts, b.expand args = .ok stmts ∧
          ∀ e ∈ (Stmt.walkAll stmts).flatMap Stmt.exprs, ∀ p ∈ b.params, p ∉ e.vars := by
  refine ⟨fun s e => e.vars_substitute,Expr.substitute_none,fun s ρ h e => e.value?_substitute h,?_⟩
  intro b args hlength hargs
  have hexpand : b.expand args = .ok (Stmt.substituteAll (.ofLists b.params args) b.body) := if_pos hlength
  refine ⟨_,hexpand,fun e he p hp => ?_⟩
  exact not_mem_vars_expand hexpand hp (fun a ha => hargs a ha p hp) e he

def damage : LogicBlock where
  name := "damage"
  params := ["amount"]
  body := [.assign "hp" .set (.binary .sub (.var "hp") (.var "amount")) none,
    .cond (.binary .gt (.var "amount") (.int 3)) [.call "shake" [.var "amount"] none] none none]

/-- With 9 points left and a power of 2, damage of twice the power leaves 5 points. -/
theorem substitution_of_damage :
    let twice : Expr := .binary .mul (.var "power") (.int 2)
    let e : Expr := .binary .sub (.var "hp") (.var "amount")
    let s := Substitution.ofLists ["amount"] [twice]
    let ρ : Valuation := { (default : Valuation) with var := fun name => if name = "hp" then 9 else 2 }
    (∀ name b, s name = some b → (b.value? ρ).isSome) ∧ (e.substitute s).vars = ["hp","power"] ∧
      (e.substitute s).value? ρ = some 5 ∧ (∀ a ∈ [twice], ∀ p ∈ damage.params, p ∉ a.vars) ∧
      ∃ stmts, damage.expand [twice] = .ok stmts ∧
        ∀ e ∈ (Stmt.walkAll stmts).flatMap Stmt.exprs, ∀ p ∈ damage.params, p ∉ e.vars := by
  intro twice e s ρ
  obtain ⟨hvars,-,hvalue,hexpand⟩ := substitution_is_simultaneous
  have hbound : ∀ name b, s name = some b → (b.value? ρ).isSome := by
    intro name b hb
    obtain ⟨before,after,hsplit,-⟩ := List.lookup_eq_some_iff.mp hb
    have hmem : (name,b) ∈ [("amount",twice)] := (hsplit ▸ by simp : (name,b) ∈ [("amount",twice)].reverse)
    obtain ⟨-,rfl⟩ := Prod.mk.inj (List.mem_singleton.mp hmem)
    rfl
  have hargs : ∀ a ∈ [twice], ∀ p ∈ damage.params, p ∉ a.vars := by decide
  refine ⟨hbound,(hvars s e).trans (by decide),(hvalue s ρ hbound e).trans (by decide),hargs,?_⟩
  exact hexpand damage [twice] rfl hargs

end LogicBlock

end Cartridge
