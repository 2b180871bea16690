import Mathlib.Tactic.Common
import Cartridge.Proofs.Nav.Place

/-!
What a change of a grid changes. A byte holds the bits of eight tiles, and rows may end within a byte; but a mask
picks a single bit, and tiles of one grid differ in their places, so that writing a tile leaves every other one as it
was. Writes keep the sizes of both layers, hence they always find the byte they write to.
-/
namespace Cartridge.Nav.Grid

theorem toBitVec_mask (i : Nat) : (mask i).toBitVec = BitVec.twoPow 8 (i % 8) := by
  have hall : ∀ k : Fin 8, ((1 : UInt8) <<< UInt8.ofNat k.val).toBitVec = BitVec.twoPow 8 k.val := by
    decide
  exact hall ⟨i % 8,Nat.mod_lt i (by decide)⟩

theorem and_mask_ne_zero_iff (b : UInt8) (i : Nat) :
    b &&& mask i ≠ 0 ↔ b.toBitVec.getLsbD (i % 8) = true := by
  have hk : i % 8 < 8 := Nat.mod_lt i (by decide)
  have hpow : BitVec.twoPow 8 (i % 8) ≠ 0#8 := by
    intro h
    have hbit := congrArg (fun v => v.getLsbD (i % 8)) h
    simp [hk] at hbit
  rw [ne_eq, ← UInt8.toBitVec_inj, UInt8.toBitVec_and, toBitVec_mask, BitVec.and_twoPow]
  split_ifs with hbit
  · exact iff_of_true hpow hbit
  · exact iff_of_false (by simp) hbit

theorem bit_eq_getLsbD (g : Grid) (i : Nat) :
    g.bit i = (g.walkable.getD (i / 8) 0).toBitVec.getLsbD (i % 8) := by
  rw [Bool.eq_iff_iff, bit, decide_eq_true_iff, and_mask_ne_zero_iff]

/-- The bits of a byte after one of them was written. -/
theorem getLsbD_written (b : UInt8) (i : Nat) (on : Bool) {k : Nat} (hk : k < 8) :
    (if on then b ||| mask i else b &&& ~~~mask i).toBitVec.getLsbD k =
      if k = i % 8 then on else b.toBitVec.getLsbD k := by
  have hi : i % 8 < 8 := Nat.mod_lt i (by decide)
  by_cases he : k = i % 8
  · cases on <;> simp [toBitVec_mask, he, hi]
  · cases on <;> simp [toBitVec_mask, he, hk]

/-- Writing a bit that has a byte changes no other bit. -/
theorem bit_setBit {g : Grid} {i : Nat} (h : g.hasBit i = true) (on : Bool) (j : Nat) :
    (g.setBit i on).bit j = if j = i then on else g.bit j := by
  have hlt : i / 8 < g.walkable.length := of_decide_eq_true h
  have hj : j % 8 < 8 := Nat.mod_lt j (by decide)
  simp only [bit_eq_getLsbD, setBit, List.getD_eq_getElem?_getD]
  by_cases hbyte : j / 8 = i / 8
  · have hbit : j = i ↔ j % 8 = i % 8 := by omega
    rw [hbyte, List.getElem?_set_self hlt, Option.getD_some, getLsbD_written _ i on hj]
    simp only [hbit]
  · have hne : j ≠ i := fun he => hbyte (he ▸ rfl)
    rw [List.getElem?_set_ne (Ne.symm hbyte), if_neg hne]

section edges

variable (g : Grid) (t : Tile)

theorem width_setWalkable (on : Bool) : (g.setWalkable t on).width = g.width := by
  rw [setWalkable]
  split <;> rfl

theorem height_setWalkable (on : Bool) : (g.setWalkable t on).height = g.height := by
  rw [setWalkable]
  split <;> rfl

theorem width_setWeight (w : UInt8) : (g.setWeight t w).width = g.width := by
  rw [setWeight]
  split <;> rfl

theorem height_setWeight (w : UInt8) : (g.setWeight t w).height = g.height := by
  rw [setWeight]
  split <;> rfl

end edges

theorem isSized_setBit {g : Grid} (h : g.IsSized) (i : Nat) (on : Bool) : (g.setBit i on).IsSized where
  width_pos := h.width_pos
  height_pos := h.height_pos
  width_le := h.width_le
  height_le := h.height_le
  bits := List.length_set.trans h.bits
  weights := h.weights

/-- The sizes are all that is checked. -/
theorem IsSized.validate_eq {g : Grid} (h : g.IsSized) : g.validate = .ok () := by
  have hedges : ¬(g.width = 0 ∨ g.height = 0 ∨ maxGridEdge < g.width.toNat ∨
      maxGridEdge < g.height.toNat) := by
    have hw := h.width_pos
    have hh := h.height_pos
    rintro (hz | hz | hlt | hlt)
    · rw [hz] at hw
      cases hw
    · rw [hz] at hh
      cases hh
    · exact Nat.not_le.mpr hlt h.width_le
    · exact Nat.not_le.mpr hlt h.height_le
  simp only [validate, blocked, if_neg hedges, bind, Except.bind, List.length_replicate]
  rw [if_neg (not_not.mpr h.bits)]
  cases hw : g.weights with
  | none => rfl
  | some w => exact if_neg (not_not.mpr (h.weights w hw))

def look (g : Grid) (t : Tile) : Bool × UInt8 := (g.isWalkable t,g.weight t)

/-- The layer of weights; where there is none yet, the one that is made at first use. -/
def layer (g : Grid) : List UInt8 := g.weights.getD (List.replicate g.tileCount 1)

def withWeight (g : Grid) (t : Tile) (w : UInt8) : Grid :=
  { g with weights := some (g.layer.set (g.index t) w) }

theorem setWeight_eq {g : Grid} {t : Tile} (ht : g.contains t = true) (w : UInt8) :
    g.setWeight t w = (g.withWeight t w).setBit (g.index t) (w ≠ 0) := if_pos ht

/-- A layer says of the tiles what the grid said before it had one. -/
theorem getD_layer {g : Grid} {t : Tile} (ht : g.contains t = true) :
    g.layer.getD (g.index t) 1 = g.weight t := by
  rw [layer, weight]
  cases hw : g.weights with
  | none => simp [index_lt ht]
  | some w => simp [ht]

namespace IsSized

variable {g : Grid} {t : Tile} (h : g.IsSized)

include h

/-- Different tiles of a grid have different places. -/
theorem index_inj (ht : g.contains t = true) {u : Tile} (hu : g.contains u = true) :
    g.index u = g.index t ↔ u = t := by
  constructor
  · intro he
    rw [← h.tileAt_place hu, ← h.tileAt_place ht, place, place, he]
  · rintro rfl
    rfl

theorem isWalkable_setBit (ht : g.contains t = true) (on : Bool) (u : Tile) :
    (g.setBit (g.index t) on).isWalkable u = if u = t then on else g.isWalkable u := by
  have hcontains : (g.setBit (g.index t) on).contains u = g.contains u := rfl
  have hindex : (g.setBit (g.index t) on).index u = g.index u := rfl
  rw [isWalkable, isWalkable, hcontains, hindex, bit_setBit (h.hasBit_index ht)]
  by_cases hu : g.contains u = true
  · simp only [hu, h.index_inj ht hu, Bool.true_and]
  · have hne : u ≠ t := fun he => hu (he ▸ ht)
    simp [hu, hne]

/-- Opening or blocking a tile leaves its weight, and all of the other tiles. -/
theorem look_setWalkable (ht : g.contains t = true) (on : Bool) (u : Tile) :
    (g.setWalkable t on).look u = if u = t then (on,g.weight u) else g.look u := by
  have hweight : (g.setBit (g.index t) on).weight u = g.weight u := rfl
  rw [setWalkable, if_pos ht, look, h.isWalkable_setBit ht, hweight]
  split_ifs <;> rfl

theorem isSized_setWalkable (t : Tile) (on : Bool) : (g.setWalkable t on).IsSized := by
  rw [setWalkable]
  split_ifs
  · exact isSized_setBit h _ on
  · exact h

theorem length_layer : g.layer.length = g.tileCount := by
  rw [layer]
  cases hw : g.weights with
  | none => exact List.length_replicate
  | some w => exact h.weights w hw

theorem isSized_withWeight (t : Tile) (w : UInt8) : (g.withWeight t w).IsSized where
  width_pos := h.width_pos
  height_pos := h.height_pos
  width_le := h.width_le
  height_le := h.height_le
  bits := h.bits
  weights layer hlayer := by
    cases hlayer
    exact List.length_set.trans h.length_layer

theorem weight_withWeight (ht : g.contains t = true) (w : UInt8) (u : Tile) :
    (g.withWeight t w).weight u = if u = t then w else g.weight u := by
  have hlt : g.index t < g.layer.length := by
    rw [h.length_layer]
    exact index_lt ht
  change (if g.contains u = true then (g.layer.set (g.index t) w).getD (g.index u) 1 else 1) = _
  by_cases hu : g.contains u = true
  · rw [if_pos hu, List.getD_eq_getElem?_getD]
    by_cases he : u = t
    · rw [he, if_pos rfl, List.getElem?_set_self hlt, Option.getD_some]
    · have hne : g.index t ≠ g.index u := fun hi => he ((h.index_inj ht hu).mp hi.symm)
      rw [if_neg he, List.getElem?_set_ne hne, ← List.getD_eq_getElem?_getD, getD_layer hu]
  · have he : u ≠ t := fun he => hu (he ▸ ht)
    rw [if_neg hu, if_neg he, weight]
    cases g.weights <;> simp [hu]

/-- Writing a weight opens or blocks the tile and leaves all of the other tiles, also when the layer of weights is
made for it. -/
theorem look_setWeight (ht : g.contains t = true) (w : UInt8) (u : Tile) :
    (g.setWeight t w).look u = if u = t then (decide (w ≠ 0),w) else g.look u := by
  have hbit := (h.isSized_withWeight t w).isWalkable_setBit ht (w ≠ 0) u
  rw [setWeight_eq ht, look]
  refine Prod.ext (hbit.trans ?_) ((h.weight_withWeight ht w u).trans ?_)
  · split_ifs <;> rfl
  · split_ifs <;> rfl

theorem isSized_setWeight (t : Tile) (w : UInt8) : (g.setWeight t w).IsSized := by
  by_cases ht : g.contains t = true
  · rw [setWeight_eq ht]
    exact isSized_setBit (h.isSized_withWeight t w) _ _
  · rw [setWeight, if_neg ht]
    exact h

/-- A call finds the byte to write to. -/
theorem setWalkable?_eq (t : Tile) (on : Bool) : g.setWalkable? t on = some (g.setWalkable t on) := by
  rw [setWalkable?, if_neg]
  simp only [Bool.and_eq_true, Bool.not_eq_true', not_and, Bool.not_eq_false]
  exact fun ht => h.hasBit_index ht

theorem setWeight?_eq (t : Tile) (w : UInt8) : g.setWeight? t w = some (g.setWeight t w) := by
  rw [setWeight?]
  split_ifs with ht
  · have hlayer : (g.weights.map List.length).getD g.tileCount = g.tileCount := by
      cases hw : g.weights with
      | none => rfl
      | some w => exact h.weights w hw
    dsimp only
    rw [hlayer, if_pos ⟨index_lt ht,h.hasBit_index ht⟩]
  · rw [setWeight, if_neg ht]

end IsSized

end Cartridge.Nav.Grid
