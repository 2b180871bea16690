import Mathlib.Data.List.Basic
import Cartridge.Expr.Substitute
import Cartridge.Proofs.Expr.Value

/-!
Expressions in the place of variables. All bound names are replaced at once, and what takes their place is
not looked at again, so reading and evaluating the result is reading and evaluating the expression with
other meanings of its variables.
-/
namespace Cartridge

namespace Substitution

def varsFor (s : Substitution) (name : String) : List String :=
  match s name with
  | some e => e.vars
  | none => [name]

/-- If there are as many expressions as names, each of the names is bound to one of them. -/
theorem exists_ofLists {names : List String} {values : List Expr} (h : values.length = names.length)
    {name : String} (hname : name ∈ names) : ∃ e ∈ values, ofLists names values name = some e := by
  have hfst : (names.zip values).map Prod.fst = names := List.map_fst_zip h.ge
  obtain ⟨p,hp,rfl⟩ := List.mem_map.mp (hfst.symm ▸ hname)
  have hbound : (ofLists names values p.1).isSome :=
    List.lookup_isSome_iff.mpr ⟨p,List.mem_reverse.mpr hp,beq_self_eq_true _⟩
  obtain ⟨e,he⟩ := Option.isSome_iff_exists.mp hbound
  obtain ⟨before,after,hsplit,-⟩ := List.lookup_eq_some_iff.mp he
  have hmem : (p.1,e) ∈ (names.zip values).reverse := hsplit ▸ by simp
  exact ⟨e,(List.of_mem_zip (List.mem_reverse.mp hmem)).2,he⟩

/-- Where names are bound to expressions that read none of them, they are not read any more. -/
theorem not_mem_varsFor {names : List String} {values : List Expr} (h : values.length = names.length)
    {p : String} (hp : p ∈ names) (hvalues : ∀ e ∈ values, p ∉ e.vars) (name : String) :
    p ∉ (ofLists names values).varsFor name := by
  intro hmem
  rw [varsFor] at hmem
  split at hmem
  next e he =>
    obtain ⟨before,after,hsplit,-⟩ := List.lookup_eq_some_iff.mp he
    have hpair : (name,e) ∈ (names.zip values).reverse := hsplit ▸ by simp
    exact hvalues e (List.of_mem_zip (List.mem_reverse.mp hpair)).2 hmem
  next hfree =>
    obtain ⟨e,-,he⟩ := exists_ofLists h hp
    rw [List.mem_singleton.mp hmem, hfree] at he
    cases he

end Substitution

/-- The valuation in which every bound name has the value of what is bound to it. -/
def Valuation.bind (ρ : Valuation) (s : Substitution) : Valuation where
  var name :=
    match s name with
    | some e => (e.value? ρ).getD 0
    | none => ρ.var name
  element := ρ.element
  call := ρ.call
  text := ρ.text

namespace Expr
variable {s : Substitution} {ρ : Valuation}

theorem substituteAll_eq_map (es : List Expr) : substituteAll s es = es.map (substitute s) := by
  induction es with
  | nil => rfl
  | cons e es ih => rw [substituteAll, ih, List.map_cons]

theorem varsOf_eq_flatMap (es : List Expr) : varsOf es = es.flatMap vars := by
  induction es with
  | nil => rfl
  | cons e es ih => rw [varsOf, ih, List.flatMap_cons]

/-- In the place of each variable, the variables of what is bound to it are read. -/
theorem vars_substitute (e : Expr) : (e.substitute s).vars = e.vars.flatMap s.varsFor := by
  induction e with
  | int v | str t => rfl
  | var name =>
    rw [vars, List.flatMap_singleton, substitute, Substitution.varsFor]
    cases s name <;> rfl
  | binary op l r ihl ihr => rw [substitute, vars, vars, List.flatMap_append, ihl, ihr]
  | unary op e ih => rw [substitute, vars, vars, ih]
  | index array e ih => rw [substitute, vars, vars, ih]
  | call name args ih =>
    rw [substitute, vars, vars, substituteAll_eq_map, varsOf_eq_flatMap, varsOf_eq_flatMap,
      List.flatMap_map, List.flatMap_assoc]
    exact List.flatMap_congr ih
  | ternary c y n ihc ihy ihn =>
    rw [substitute, vars, vars, List.flatMap_append, List.flatMap_append, ihc, ihy, ihn]

/-- With nothing bound, an expression stays as it is. -/
theorem substitute_none (e : Expr) : e.substitute (fun _ => none) = e := by
  induction e with
  | int v | str t | var name => rfl
  | binary op l r ihl ihr => rw [substitute, ihl, ihr]
  | unary op e ih => rw [substitute, ih]
  | index array e ih => rw [substitute, ih]
  | call name args ih => rw [substitute, substituteAll_eq_map, List.map_congr_left ih, List.map_id']
  | ternary c y n ihc ihy ihn => rw [substitute, ihc, ihy, ihn]

private theorem values?_map_substitute {args : List Expr}
    (h : ∀ a ∈ args, (a.substitute s).value? ρ = a.value? (ρ.bind s)) :
    values? ρ (args.map (substitute s)) = values? (ρ.bind s) args := by
  induction args with
  | nil => rfl
  | cons a args ih =>
    obtain ⟨ha,hargs⟩ := List.forall_mem_cons.mp h
    rw [List.map_cons, values?, values?, ha, ih hargs]

/-- What takes the place of variables counts as their values do, if it has values. -/
theorem value?_substitute (h : ∀ name b, s name = some b → (b.value? ρ).isSome) (e : Expr) :
    (e.substitute s).value? ρ = e.value? (ρ.bind s) := by
  induction e with
  | int v | str t => rfl
  | var name =>
    have hbind : (ρ.bind s).var name = match s name with
      | some b => (b.value? ρ).getD 0
      | none => ρ.var name := rfl
    rw [substitute, value?, hbind]
    cases hname : s name with
    | none => rfl
    | some b =>
      obtain ⟨x,hx⟩ := Option.isSome_iff_exists.mp (h name b hname)
      simp only [Option.getD_some, hx]
  | binary op l r ihl ihr => rw [substitute, value?, value?, ihl, ihr]
  | unary op e ih => rw [substitute, value?, value?, ih]
  | index array e ih =>
    rw [substitute, value?, value?, ih]
    rfl
  | call name args ih =>
    rw [substitute, value?, value?, substituteAll_eq_map, values?_map_substitute ih]
    rfl
  | ternary c y n ihc ihy ihn => rw [substitute, value?, value?, ihc, ihy, ihn]

end Expr

end Cartridge
