import Cartridge.Stmt.Json
import Cartridge.Proofs.Expr.Json
import Cartridge.Proofs.Stmt.Walk

/-! Statements written as documents and read back, with the places they were written at. -/
namespace Cartridge

open Json

theorem Location.spells (l : Location) : Spells ofJson? l l.toJson := by
  refine spells_record (fun _ _ => rfl) ?_ (by decide) ?_ fun d _ => ?_
  · cases l.column <;> cases l.snippet <;> rfl
  · simp +contextual [or_imp]
  · simp [List.lookup_cons, List.lookup_append]

@[simp] theorem AssignOp.ofJson?_toJson (op : AssignOp) (d : Nat) : ofJson? d op.toJson = some op :=
  oneOf?_ofString (by decide) (by cases op <;> decide) d

@[simp] theorem AssignOp.isPlain_toJson (op : AssignOp) : op.toJson.IsPlain := isPlain_ofString _

namespace Stmt

theorem toJsonAll_eq_map (stmts : List Stmt) : toJsonAll stmts = stmts.map toJson := by
  induction stmts with
  | nil => rfl
  | cons s stmts ih => rw [toJsonAll, ih, List.map_cons]

theorem header?_tagged (kind : String) (body : Json) (loc : Option Location) {d : Nat}
    (hd : (tagged kind body loc).depth ≤ d) :
    header? d (tagged kind body loc) = some (kind, body, loc) := by
  obtain ⟨d,rfl,hms⟩ := depth_ofMembers_le.mp hd
  have hkeys : ((("kind", single kind body) :: member? "location" (loc.map Location.toJson)).map
      Prod.fst).Sublist ["kind", "location"] := by
    cases loc <;> simp [member?]
  have hloc : ∀ l ∈ loc, l.toJson ≠ .null ∧ Location.ofJson? d l.toJson = some l := by
    rintro l rfl
    exact ⟨ofMembers_ne_null _,l.spells.read (hms ("location", l.toJson) (by simp [member?]))⟩
  rw [header?, within, tagged, fields?_ofMembers hkeys (by decide)]
  simp [List.lookup_cons, elim_nullable? hloc]

/-- A statement spells what is read out of its kind, content and location. -/
theorem spells_tagged {kind : String} {body : Json} {loc : Option Location} {s : Stmt}
    (hplain : body.IsPlain)
    (h : ∀ d, body.depth ≤ d → ∀ j, header? (d + 2) j = some (kind, body, loc) →
      ofJson? (d + 2) j = some s) :
    Spells ofJson? s (tagged kind body loc) where
  plain := by
    have hloc (l : Location) : l.toJson.IsPlain := l.spells.plain
    simp +contextual [tagged, hplain, hloc, or_imp]
  read hd := by
    have hheader := header?_tagged kind body loc hd
    obtain ⟨d,rfl,hms⟩ := depth_ofMembers_le.mp hd
    obtain ⟨d,rfl,hbody⟩ := depth_single_le.mp (hms ("kind", single kind body) (by simp))
    exact h d hbody _ hheader

/-- A branch that may be missing is read as it was written. -/
private theorem nullable?_branch {no : Option (List Stmt)} {d : Nat}
    (h : ∀ b ∈ no, ∀ s ∈ b, Spells ofJson? s s.toJson) (hd : (branchToJson no).depth ≤ d + 1) :
    nullable? (items? (ofJson? d)) (branchToJson no) = some no := by
  cases no with
  | none => rfl
  | some stmts =>
    rw [branchToJson, toJsonAll_eq_map] at hd ⊢
    obtain ⟨_,he,hitems⟩ := depth_arr_le.mp hd
    cases he
    rw [nullable?, items?_map (h stmts rfl) hitems]
    · rfl
    · simp

private theorem isPlain_branch {no : Option (List Stmt)}
    (h : ∀ b ∈ no, ∀ s ∈ b, Spells ofJson? s s.toJson) : (branchToJson no).IsPlain := by
  cases no with
  | none => exact isPlain_null
  | some stmts =>
    rw [branchToJson, toJsonAll_eq_map]
    simpa using fun s hs => (h stmts rfl s hs).plain

/-- Every statement is read as it was written. -/
theorem spells (s : Stmt) : Spells ofJson? s s.toJson := by
  induction s with
  | assign target op value loc =>
    rw [toJson]
    refine spells_tagged (by simp [value.spells.plain]) fun d hd j hj => ?_
    obtain ⟨d,rfl,hms⟩ := depth_ofMembers_le.mp hd
    simp only [List.forall_mem_cons] at hms
    rw [ofJson?.eq_def, hj]
    simp [fields?_ofMembers, List.lookup_cons, value.spells.read, hms]
  | cond test yes no loc hyes hno =>
    rw [toJson, toJsonAll_eq_map]
    refine spells_tagged ?_ fun d hd j hj => ?_
    · simpa [test.spells.plain, isPlain_branch hno] using fun s hs => (hyes s hs).plain
    · obtain ⟨d,rfl,hms⟩ := depth_ofMembers_le.mp hd
      simp only [List.forall_mem_cons] at hms
      obtain ⟨d,rfl,hitems⟩ := depth_arr_le.mp hms.2.1
      rw [ofJson?.eq_def, hj]
      simp [fields?_ofMembers, List.lookup_cons, test.spells.read, items?_map hyes hitems,
        nullable?_branch hno, hms]
  | loop test body loc hbody =>
    rw [toJson, toJsonAll_eq_map]
    refine spells_tagged ?_ fun d hd j hj => ?_
    · simpa [test.spells.plain] using fun s hs => (hbody s hs).plain
    · obtain ⟨d,rfl,hms⟩ := depth_ofMembers_le.mp hd
      simp only [List.forall_mem_cons] at hms
      obtain ⟨d,rfl,hitems⟩ := depth_arr_le.mp hms.2.1
      rw [ofJson?.eq_def, hj]
      simp [fields?_ofMembers, List.lookup_cons, test.spells.read,
        items?_map hbody hitems, hms]
  | range counter first last body loc hbody =>
    rw [toJson, toJsonAll_eq_map]
    refine spells_tagged (by simpa using fun s hs => (hbody s hs).plain) fun d hd j hj => ?_
    obtain ⟨d,rfl,hms⟩ := depth_ofMembers_le.mp hd
    simp only [List.forall_mem_cons] at hms
    obtain ⟨d,rfl,hitems⟩ := depth_arr_le.mp hms.2.2.2.1
    rw [ofJson?.eq_def, hj]
    simp [fields?_ofMembers, List.lookup_cons, items?_map hbody hitems]
  | call name args loc =>
    rw [toJson, Expr.toJsonAll_eq_map]
    refine spells_tagged (by simpa using fun e _ => e.spells.plain) fun d hd j hj => ?_
    obtain ⟨d,rfl,hms⟩ := depth_ofMembers_le.mp hd
    simp only [List.forall_mem_cons] at hms
    obtain ⟨d,rfl,hitems⟩ := depth_arr_le.mp hms.2.1
    rw [ofJson?.eq_def, hj]
    simp [fields?_ofMembers, List.lookup_cons,
      items?_map (fun e _ => Expr.spells e) hitems]
  | changeScene scene loc =>
    rw [toJson]
    exact spells_tagged (by simp) fun d _ j hj => by rw [ofJson?.eq_def, hj]; rfl
  | raw text loc =>
    rw [toJson]
    exact spells_tagged (by simp) fun d _ j hj => by rw [ofJson?.eq_def, hj]; rfl
  | assignIndex array subscript op value loc =>
    rw [toJson]
    refine spells_tagged (by simp [value.spells.plain, subscript.spells.plain]) fun d hd j hj => ?_
    obtain ⟨d,rfl,hms⟩ := depth_ofMembers_le.mp hd
    simp only [List.forall_mem_cons] at hms
    rw [ofJson?.eq_def, hj]
    simp [fields?_ofMembers, List.lookup_cons, value.spells.read, subscript.spells.read, hms]

theorem spells_listToJson (stmts : List Stmt) : Spells listOfJson? stmts (listToJson stmts) := by
  rw [listToJson, toJsonAll_eq_map]
  exact spells_list fun s _ => s.spells

end Stmt

end Cartridge
