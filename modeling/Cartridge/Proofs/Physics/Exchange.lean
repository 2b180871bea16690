import Cartridge.Proofs.Physics.Contest
import Cartridge.Proofs.Physics.Separation

/-!
The two bodies of a pair in either order. Which of them is first decides a direction, and with it two signs,
two ratios and two tests of a velocity; all of these turn around together, unless the centres coincide.
-/
namespace Cartridge.Physics

theorem separationRatios_comm (a b : UInt8) :
    separationRatios b a = (separationRatios a b).map Prod.swap := by
  by_cases ha : a = 0 <;> by_cases hb : b = 0 <;>
    simp [separationRatios, ha, hb, Nat.add_comm b.toNat]

namespace Body

variable {x y : Body}

/-- Centres that differ on some axis differ on the axis of contact. -/
theorem gap_contactAxis (h : ∃ axis, gap x y axis ≠ 0) : gap x y (contactAxis x y) ≠ 0 := by
  obtain ⟨axis,haxis⟩ := h
  rw [contactAxis]
  split
  · omega
  · cases axis <;> omega

/-- Bodies that trade places are pushed as before. -/
theorem separate_swap (coefficient : Fixed) (h : ∃ axis, gap x y axis ≠ 0) :
    separate coefficient y x = (separate coefficient x y).swap := by
  have hturned : (if 0 ≤ gap y x (contactAxis x y) then 1 else -1 : Int16) =
      -(if 0 ≤ gap x y (contactAxis x y) then 1 else -1) := by
    have hgap := gap_contactAxis h
    rw [gap_comm x y]
    split <;> split
    · omega
    · rfl
    · rfl
    · omega
  rw [separate, separate, separationRatios_comm x.mass y.mass]
  rcases separationRatios x.mass y.mass with _ | ⟨ratioX,ratioY⟩
  · rfl
  · simp only [Option.map_some, Prod.swap_prod_mk, contactAxis_comm x y, overlap_comm x y, hturned,
      Int16.neg_neg]

end Body

namespace Simulation

variable {bodies : Array Body} {a b : Nat} {x y : Body}

/-- A solid pair that compares two slots, and finds their bodies to overlap, pushes them apart. -/
theorem visit_solid (coefficient : Fixed) (hx : bodies[a]? = some x) (hy : bodies[b]? = some y)
    (hoverlap : x.box.overlaps y.box = true) :
    (visit coefficient true [(a,b)] bodies).1 =
      (bodies.setIfInBounds a (Body.separate coefficient x y).1).setIfInBounds b
        (Body.separate coefficient x y).2 := by
  rw [visit_bodies]
  exact contest_of_overlaps hx hy hoverlap

/-- Two overlapping bodies whose centres do not coincide are pushed to the same state of all bodies whichever
of them is compared with the other. -/
theorem separation_ignores_order (coefficient : Fixed) (hne : a ≠ b) (hx : bodies[a]? = some x)
    (hy : bodies[b]? = some y) (hoverlap : x.box.overlaps y.box = true)
    (hcentres : ∃ axis, Body.gap x y axis ≠ 0) :
    (visit coefficient true [(a,b)] bodies).1 =
        (bodies.setIfInBounds a (Body.separate coefficient x y).1).setIfInBounds b
          (Body.separate coefficient x y).2 ∧
      (visit coefficient true [(b,a)] bodies).1 = (visit coefficient true [(a,b)] bodies).1 := by
  have hfirst := visit_solid coefficient hx hy hoverlap
  have hsecond := visit_solid coefficient hy hx ((Body.overlaps_comm x y).trans hoverlap)
  rw [Body.separate_swap coefficient hcentres] at hsecond
  refine ⟨hfirst,?_⟩
  rw [hfirst, hsecond]
  exact Array.setIfInBounds_comm _ _ hne.symm

def meetingCrates : Array Body := #[{ Body.crate 0 1 with vx := 300 },{ Body.crate 4 3 with vx := -200 }]

theorem meetingCrates_ignore_order :
    0 ≠ 1 ∧ meetingCrates[0]? = some { Body.crate 0 1 with vx := 300 } ∧
      meetingCrates[1]? = some { Body.crate 4 3 with vx := -200 } ∧
      (Body.crate 0 1).box.overlaps (Body.crate 4 3).box = true ∧
      (∃ axis, Body.gap (Body.crate 0 1) (Body.crate 4 3) axis ≠ 0) ∧
      (visit .one true [(0,1)] meetingCrates).1 =
        #[{ Body.crate (-3) 1 with vx := -300 },{ Body.crate 5 3 with vx := 100 }] ∧
      (visit .one true [(1,0)] meetingCrates).1 = (visit .one true [(0,1)] meetingCrates).1 :=
  ⟨by decide,rfl,rfl,by decide,⟨.x,by decide⟩,
    separation_ignores_order .one (by decide : 0 ≠ 1) (rfl : meetingCrates[0]? = _)
      (rfl : meetingCrates[1]? = _) (by decide) ⟨.x,by decide⟩⟩

/-- Where the centres coincide the second body goes ahead, whichever it is. -/
example : (visit .one true [(0,1)] #[Body.crate 0 1,Body.crate 0 3]).1 ≠
    (visit .one true [(1,0)] #[Body.crate 0 1,Body.crate 0 3]).1 := by decide

end Simulation

end Cartridge.Physics
