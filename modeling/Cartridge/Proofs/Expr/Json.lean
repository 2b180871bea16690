import Cartridge.Expr.Json
import Cartridge.Proofs.Expr.Every
import Cartridge.Proofs.Json.Record

/-! Expressions written as documents and read back. -/
namespace Cartridge

open Json

@[simp] theorem BinOp.ofJson?_name (op : BinOp) (d : Nat) :
    ofJson? d (.ofString op.name) = some op :=
  oneOf?_ofString (by decide) (by cases op <;> decide) d

@[simp] theorem UnOp.ofJson?_name (op : UnOp) (d : Nat) : ofJson? d (.ofString op.name) = some op :=
  oneOf?_ofString (by decide) (by cases op <;> decide) d

namespace Expr

theorem toJsonAll_eq_map (es : List Expr) : toJsonAll es = es.map toJson := by
  induction es with
  | nil => rfl
  | cons e es ih => rw [toJsonAll, ih, List.map_cons]

/-- Every expression is read as it was written. -/
theorem spells (e : Expr) : Spells ofJson? e e.toJson := by
  induction e with
  | int v =>
    rw [toJson]
    refine spells_variant (by simp) fun d _ => ?_
    simp [ofJson?, literal?, within]
  | str s =>
    rw [toJson]
    refine spells_variant (by simp) fun d _ => ?_
    simp [ofJson?, literal?, within]
  | var name =>
    rw [toJson]
    refine ⟨by simp,fun hd => ?_⟩
    obtain ⟨d,rfl,-⟩ := depth_single_le.mp hd
    simp [ofJson?]
  | binary op l r hl hr =>
    rw [toJson]
    refine spells_variant (by simp [hl.plain, hr.plain]) fun d hd => ?_
    simp only [List.forall_mem_cons] at hd
    simp [ofJson?, fields?_ofMembers, List.lookup_cons, hl.read, hr.read, hd]
  | unary op e he =>
    rw [toJson]
    refine spells_variant (by simp [he.plain]) fun d hd => ?_
    simp only [List.forall_mem_cons] at hd
    simp [ofJson?, fields?_ofMembers, List.lookup_cons, he.read, hd]
  | index array e he =>
    rw [toJson]
    refine spells_variant (by simp [he.plain]) fun d hd => ?_
    simp only [List.forall_mem_cons] at hd
    simp [ofJson?, fields?_ofMembers, List.lookup_cons, he.read, hd]
  | call name args hargs =>
    rw [toJson, toJsonAll_eq_map]
    refine spells_variant (by simpa using fun e he => (hargs e he).plain) fun d hd => ?_
    simp only [List.forall_mem_cons] at hd
    obtain ⟨d,rfl,hitems⟩ := depth_arr_le.mp hd.2.1
    simp [ofJson?, fields?_ofMembers, List.lookup_cons, items?_map hargs hitems]
  | ternary c y n hc hy hn =>
    rw [toJson]
    refine spells_variant (by simp [hc.plain, hy.plain, hn.plain]) fun d hd => ?_
    simp only [List.forall_mem_cons] at hd
    simp [ofJson?, fields?_ofMembers, List.lookup_cons, hc.read, hy.read, hn.read, hd]

end Expr

end Cartridge
