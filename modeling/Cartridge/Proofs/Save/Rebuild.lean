import Cartridge.Proofs.Save.Build

/-!
Validation and building. A schema that was not built here is checked by building its declarations again and
comparing the places. Places and declarations make up a whole field, so the check lets through exactly the schemas
that some plan is built into; and there is only one such plan, which is read off the schema.
-/
namespace Cartridge.Save.Schema

variable {p : Plan} {s : Schema}

/-- A built schema still says what it was built from. -/
theorem plan_of_build (h : p.build = .ok s) : s.plan = p := by
  obtain ⟨-,hdecls⟩ := Plan.packed_of_build h
  obtain ⟨-,fields,-,rfl,-⟩ := Plan.build_eq_ok_iff.mp h
  obtain ⟨declarations,slots,checksum,magic,version⟩ := p
  obtain rfl : fields.map Field.declaration = declarations := hdecls
  rfl

theorem checkPlaces_self (fs : List Field) : checkPlaces fs fs = .ok () := by
  induction fs with
  | nil => rfl
  | cons f fs ih => rw [checkPlaces, if_pos ⟨rfl,rfl⟩, ih]

/-- Building a built schema's own declarations gives it once more, so that no place differs. -/
theorem validate_of_build (h : p.build = .ok s) : s.validate = .ok () := by
  obtain rfl := plan_of_build h
  rw [validate, h]
  change Halt.ofExcept (checkPlaces s.fields s.fields) = .ok ()
  rw [checkPlaces_self]
  rfl

/-- A schema is valid if and only if some plan is built into it. One whose slot leaves 16 bits when it is built
again is neither. -/
theorem validate_iff_built (s : Schema) : s.validate = .ok () ↔ ∃ p : Plan, p.build = .ok s := by
  constructor
  · intro h
    exact ⟨s.plan,build_plan_of_validate h⟩
  · rintro ⟨p,h⟩
    exact validate_of_build h

end Cartridge.Save.Schema
