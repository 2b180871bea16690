import Mathlib.Tactic.Common
import Cartridge.Nav.Search

/-!
Grids whose layers have the sizes their edges ask for. On such a grid every look at a tile has an
answer, and tiles and their places in the tables of a search stand for each other.
-/
namespace Cartridge.Nav

namespace Grid

/-- The edges are within their limits and both layers cover the grid. -/
structure IsSized (g : Grid) : Prop where
  width_pos : 0 < g.width.toNat
  height_pos : 0 < g.height.toNat
  width_le : g.width.toNat ≤ maxGridEdge
  height_le : g.height.toNat ≤ maxGridEdge
  bits : g.walkable.length = byteCount g.width g.height
  weights : ∀ w, g.weights = some w → w.length = g.tileCount

theorem isSized_of_validate {g : Grid} (h : g.validate = .ok ()) : g.IsSized := by
  unfold validate blocked at h
  by_cases hsize : g.width = 0 ∨ g.height = 0 ∨ maxGridEdge < g.width.toNat ∨
      maxGridEdge < g.height.toNat
  · rw [if_pos hsize] at h
    cases h
  rw [if_neg hsize] at h
  simp only [bind, Except.bind, List.length_replicate] at h
  by_cases hbits : g.walkable.length = byteCount g.width g.height
  · rw [if_neg (by simpa using hbits)] at h
    obtain ⟨hwidth,hheight,hwle,hhle⟩ : g.width ≠ 0 ∧ g.height ≠ 0 ∧ g.width.toNat ≤ maxGridEdge ∧
      g.height.toNat ≤ maxGridEdge := by simpa using hsize
    refine ⟨?_,?_,hwle,hhle,hbits,fun w hw => ?_⟩
    · exact Nat.pos_of_ne_zero fun hz => hwidth (UInt8.toNat_inj.mp hz)
    · exact Nat.pos_of_ne_zero fun hz => hheight (UInt8.toNat_inj.mp hz)
    · simp only [hw] at h
      by_contra hlen
      rw [if_pos hlen] at h
      cases h
  · rw [if_pos hbits] at h
    cases h

theorem contains_iff {g : Grid} {t : Tile} :
    g.contains t = true ↔ t.x.toNat < g.width.toNat ∧ t.y.toNat < g.height.toNat := by
  simp [contains, UInt8.lt_iff_toNat_lt]

theorem contains_of_isWalkable {g : Grid} {t : Tile} (h : g.isWalkable t = true) :
    g.contains t = true := (Bool.and_eq_true_iff.mp h).1

theorem index_lt {g : Grid} {t : Tile} (ht : g.contains t = true) : g.index t < g.tileCount := by
  obtain ⟨hx,hy⟩ := contains_iff.mp ht
  calc
    g.index t = t.y.toNat * g.width.toNat + t.x.toNat := rfl
    _ < t.y.toNat * g.width.toNat + g.width.toNat := by omega
    _ = (t.y.toNat + 1) * g.width.toNat := by rw [Nat.succ_mul]
    _ ≤ g.height.toNat * g.width.toNat := Nat.mul_le_mul_right _ hy
    _ = g.tileCount := Nat.mul_comm _ _

def place (g : Grid) (t : Tile) : UInt16 := .ofNat (g.index t)

namespace IsSized

variable {g : Grid} (h : g.IsSized)

include h

theorem tileCount_le : g.tileCount ≤ maxTiles :=
  Nat.mul_le_mul h.width_le h.height_le

theorem toNat_place {t : Tile} (ht : g.contains t = true) : (g.place t).toNat = g.index t := by
  have hlt := index_lt ht
  have hle : g.tileCount ≤ 1024 := h.tileCount_le
  rw [place, UInt16.toNat_ofNat']
  omega

theorem place_lt {t : Tile} (ht : g.contains t = true) : (g.place t).toNat < maxTiles := by
  rw [h.toNat_place ht]
  exact Nat.lt_of_lt_of_le (index_lt ht) h.tileCount_le

/-- A tile is found again under its number. -/
theorem tileAt_place {t : Tile} (ht : g.contains t = true) : g.tileAt (g.place t).toNat = t := by
  obtain ⟨hx,hy⟩ := contains_iff.mp ht
  have hmod : g.index t % g.width.toNat = t.x.toNat := by
    rw [index, Nat.mul_comm, Nat.mul_add_mod, Nat.mod_eq_of_lt hx]
  have hdiv : g.index t / g.width.toNat = t.y.toNat := by
    rw [index, Nat.mul_comm, Nat.mul_add_div h.width_pos, Nat.div_eq_of_lt hx, Nat.add_zero]
  rw [h.toNat_place ht, tileAt, hmod, hdiv, UInt8.ofNat_toNat, UInt8.ofNat_toNat]

theorem tileAt?_eq (i : Nat) : g.tileAt? i = some (g.tileAt i) := by
  have hpos := h.width_pos
  rw [tileAt?, if_neg]
  rintro hz
  rw [hz] at hpos
  cases hpos

theorem hasBit_of_lt {i : Nat} (hi : i < g.tileCount) : g.hasBit i = true := by
  have hlt : i < g.width.toNat * g.height.toNat := hi
  rw [hasBit, decide_eq_true_eq, h.bits, byteCount]
  omega

theorem hasBit_index {t : Tile} (ht : g.contains t = true) : g.hasBit (g.index t) = true :=
  h.hasBit_of_lt (index_lt ht)

theorem isWalkable?_eq (t : Tile) : g.isWalkable? t = some (g.isWalkable t) := by
  rw [isWalkable?, if_neg]
  simp only [Bool.and_eq_true, Bool.not_eq_true', not_and, Bool.not_eq_false]
  exact fun ht => h.hasBit_index ht

theorem weight?_eq (t : Tile) : g.weight? t = some (g.weight t) := by
  unfold weight? weight
  cases hw : g.weights with
  | none => rfl
  | some w =>
    split_ifs with ht
    · have hlt : g.index t < w.length := by
        rw [h.weights w hw]
        exact index_lt ht
      simp [hlt]
    · rfl

end IsSized

end Grid

end Cartridge.Nav
