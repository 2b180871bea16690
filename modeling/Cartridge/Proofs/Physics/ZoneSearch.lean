import Mathlib.Data.List.TakeDrop
import Cartridge.Physics.Simulation

/-!
The generated program's search for the gravity at a point. It goes through the zones with a counter of one byte, so
behind zone 255 comes the first one again, and the end of the table is met only if its length is a value of a byte.
-/
namespace Cartridge.Physics.World

/-- A search, from some value of its counter on, ends with a gravity. -/
inductive Finds (w : World) (x y : Int16) : UInt8 → Fixed → Prop
  /-- No zone is left. -/
  | outside {z : UInt8} (hend : w.zones.length ≤ z.toNat) : Finds w x y z w.gravity
  | inside {z : UInt8} {zone : Zone} (hzone : w.zones[z.toNat]? = some zone) (hin : zone.contains x y = true) :
    Finds w x y z zone.gravity
  | next {z : UInt8} {zone : Zone} {gravity : Fixed} (hzone : w.zones[z.toNat]? = some zone)
    (hout : zone.contains x y = false) (hrest : Finds w x y (z + 1) gravity) : Finds w x y z gravity

variable {w : World} {x y : Int16} {z : UInt8} {gravity : Fixed}

theorem Finds.unique {gravity' : Fixed} (h : w.Finds x y z gravity) (h' : w.Finds x y z gravity') :
    gravity = gravity' := by
  induction h with
  | outside hend =>
    cases h' with
    | outside => rfl
    | inside hzone | next hzone =>
      rw [List.getElem?_eq_none hend] at hzone
      cases hzone
  | inside hzone hin =>
    cases h' with
    | outside hend =>
      rw [List.getElem?_eq_none hend] at hzone
      cases hzone
    | inside hzone' => rw [Option.some.inj (hzone.symm.trans hzone')]
    | next hzone' hout =>
      rw [← Option.some.inj (hzone.symm.trans hzone'), hin] at hout
      cases hout
  | next hzone hout _ ih =>
    cases h' with
    | outside hend =>
      rw [List.getElem?_eq_none hend] at hzone
      cases hzone
    | inside hzone' hin =>
      rw [← Option.some.inj (hzone.symm.trans hzone'), hout] at hin
      cases hin
    | next _ _ hrest => exact ih hrest

/-- A counter at some number meets the end of the table, or among the zones left a zone around the point, before it
begins anew. -/
def Meets (w : World) (x y : Int16) (n : Nat) (zones : List Zone) : Prop :=
  w.zones.length ≤ 255 ∨ ∃ zone ∈ zones.take (256 - n), zone.contains x y = true

theorem Meets.next {n : Nat} {zone : Zone} {zones : List Zone} (h : w.Meets x y n (zone :: zones))
    (hn : n < w.zones.length) (hlast : n ≤ 255) (hout : zone.contains x y = false) :
    n < 255 ∧ w.Meets x y (n + 1) zones := by
  rcases h with hshort | ⟨other,hother,hin⟩
  · exact ⟨by omega,.inl hshort⟩
  · have htake : 256 - n = 256 - (n + 1) + 1 := by omega
    rw [htake, List.take_succ_cons] at hother
    rcases List.mem_cons.mp hother with rfl | hother
    · rw [hin] at hout
      cases hout
    · refine ⟨?_,.inr ⟨other,hother,hin⟩⟩
      by_contra hanew
      have hnone : 256 - (n + 1) = 0 := by omega
      rw [hnone, List.take_zero] at hother
      cases hother

theorem finds_of_drop {zones : List Zone} (hdrop : w.zones.drop z.toNat = zones) (hmeets : w.Meets x y z.toNat zones) :
    w.Finds x y z (((zones.find? fun zone => zone.contains x y).map Zone.gravity).getD w.gravity) := by
  induction zones generalizing z with
  | nil => exact .outside (List.drop_eq_nil_iff.mp hdrop)
  | cons zone zones ih =>
    have hzone : w.zones[z.toNat]? = some zone := by
      rw [← List.head?_drop, hdrop, List.head?_cons]
    rw [List.find?]
    cases hin : zone.contains x y with
    | true => exact .inside hzone hin
    | false =>
      have hlast : z.toNat ≤ 255 := Nat.le_of_lt_succ z.toNat_lt
      obtain ⟨hroom,hmeets⟩ := hmeets.next (List.getElem?_eq_some_iff.mp hzone).1 hlast hin
      have hsucc : (z + 1).toNat = z.toNat + 1 := by
        rw [UInt8.toNat_add, UInt8.toNat_one, Nat.mod_eq_of_lt (by omega)]
      refine .next hzone hin (ih ?_ (hsucc ▸ hmeets))
      rw [hsucc, ← List.drop_drop, hdrop, List.drop_one, List.tail_cons]

/-- If the table is too long for the counter, a search ends only in a zone that the counter reaches. -/
theorem Finds.exists_zone (h : w.Finds x y z gravity) (hlong : 255 < w.zones.length) :
    ∃ zone ∈ w.zones.take 256, zone.contains x y = true := by
  induction h with
  | @outside z hend =>
    have hlt := z.toNat_lt
    omega
  | @inside z zone hzone hin =>
    refine ⟨zone,List.mem_of_getElem? (i := z.toNat) ?_,hin⟩
    rwa [List.getElem?_take_of_lt z.toNat_lt]
  | next _ _ _ ih => exact ih

/-- A search for the gravity at a point ends if and only if the number of zones is a value of a byte or one of the
first 256 zones is around the point, and what it finds then is the gravity there. -/
theorem finds_iff : w.Finds x y 0 gravity ↔ gravity = w.gravityAt x y ∧
    (w.zones.length ≤ 255 ∨ ∃ zone ∈ w.zones.take 256, zone.contains x y = true) := by
  have hfinds (hmeets : w.Meets x y 0 w.zones) : w.Finds x y 0 (w.gravityAt x y) := finds_of_drop List.drop_zero hmeets
  constructor
  · intro h
    have hmeets : w.Meets x y 0 w.zones := by
      rcases Nat.lt_or_ge 255 w.zones.length with hlong | hshort
      · exact .inr (h.exists_zone hlong)
      · exact .inl hshort
    exact ⟨h.unique (hfinds hmeets),hmeets⟩
  · rintro ⟨rfl,hmeets⟩
    exact hfinds hmeets

end Cartridge.Physics.World
