import Mathlib.Dynamics.FixedPoints.Basic
import Mathlib.Tactic.Ring
import Cartridge.Proofs.Physics.Damping

/-!
Where friction leads a body on which nothing else acts. Products are rounded down, so a velocity to the right comes
to zero, but one to the left stays as soon as its whole loss is less than one unit. What is left of it is at most 255
units, and the body then drifts by one pixel a frame, since pixels are rounded down too.
-/
namespace Cartridge.Physics

section numbers

variable {limit factor v : Int}

def slowed (limit factor v : Int) : Int := max (-limit) (min limit (v * factor / 256))

/-- What friction leaves of a velocity in the end. -/
def residue (limit factor v : Int) : Int := if 0 ≤ v then 0 else -min (-v) (min limit (255 / (256 - factor)))

/-- A velocity to the left is left as it is if and only if all of its loss is rounded off; a greater one does not
get past the greatest of these. -/
theorem leftward_part (hfactor : 0 ≤ factor ∧ factor ≤ 255) (hv : v < 0) :
    (v * factor / 256 = v ↔ -v ≤ 255 / (256 - factor)) ∧
      (255 / (256 - factor) ≤ -v → v * factor / 256 ≤ -(255 / (256 - factor))) := by
  obtain ⟨loss,hloss⟩ : ∃ loss, loss = 256 - factor := ⟨_,rfl⟩
  have hpos : 0 < loss := by omega
  have hproduct : v * factor = 256 * v + -v * loss := by
    rw [hloss]
    ring
  have hnear := mul_ediv_between (x := v) (f := factor) (by omega)
  have hmost : 255 / loss * loss ≤ 255 := Int.ediv_mul_le _ (by omega)
  rw [← hloss]
  constructor
  · constructor
    · intro hkept
      exact (Int.le_ediv_iff_mul_le hpos).mpr (by omega)
    · intro hle
      have hsmall := (Int.le_ediv_iff_mul_le hpos).mp hle
      omega
  · intro hle
    have hpart : v * factor ≤ -(255 / loss) * factor :=
      Int.mul_le_mul_of_nonneg_right (by omega) hfactor.1
    have hend : -(255 / loss) * factor = 255 / loss * loss - 256 * (255 / loss) := by
      rw [hloss]
      ring
    omega

/-- A frame leaves what will be left in the end. -/
theorem residue_slowed (hlimit : 0 ≤ limit) (hfactor : 0 ≤ factor ∧ factor ≤ 255) (v : Int) :
    residue limit factor (slowed limit factor v) = residue limit factor v := by
  have hnear := mul_ediv_between (x := v) (f := factor) (by omega)
  have hnonneg : 0 ≤ 255 / (256 - factor) := Int.ediv_nonneg (by omega) (by omega)
  rw [residue, residue, slowed]
  by_cases hv : 0 ≤ v
  · rw [if_pos hv, if_pos (by omega)]
  · have hpart := leftward_part hfactor (v := v) (by omega)
    rw [if_neg hv]
    split <;> omega

/-- As long as a frame changes a velocity, it leads it nearer to zero. -/
theorem natAbs_slowed_lt (hlimit : 0 ≤ limit) (hfactor : 0 ≤ factor ∧ factor ≤ 255)
    (hchanged : slowed limit factor v ≠ v) : (slowed limit factor v).natAbs < v.natAbs := by
  have hnear := mul_ediv_between (x := v) (f := factor) (by omega)
  rw [slowed] at hchanged ⊢
  omega

/-- What a frame does not change is what is left in the end. -/
theorem residue_of_slowed_eq (hlimit : 0 ≤ limit) (hfactor : 0 ≤ factor ∧ factor ≤ 255)
    (hkept : slowed limit factor v = v) : residue limit factor v = v := by
  rw [slowed] at hkept
  rw [residue]
  split
  next hv =>
    have hless : v * factor ≤ v * 255 := Int.mul_le_mul_of_nonneg_left hfactor.2 hv
    omega
  next hv =>
    have hpart := leftward_part hfactor (v := v) (by omega)
    have hnear := mul_ediv_between (x := v) (f := factor) (by omega)
    omega

/-- After finitely many frames a velocity is what is left of it, and stays so. -/
theorem exists_iterate_slowed (hlimit : 0 ≤ limit) (hfactor : 0 ≤ factor ∧ factor ≤ 255) (v : Int) :
    ∃ n, ∀ m, n ≤ m → (slowed limit factor)^[m] v = residue limit factor v := by
  induction hsize : v.natAbs using Nat.strong_induction_on generalizing v with
  | _ size ih =>
    by_cases hkept : slowed limit factor v = v
    · refine ⟨0,fun m _ => ?_⟩
      rw [Function.iterate_fixed hkept, residue_of_slowed_eq hlimit hfactor hkept]
    · obtain ⟨n,hn⟩ := ih _ (hsize ▸ natAbs_slowed_lt hlimit hfactor hkept) (slowed limit factor v) rfl
      refine ⟨n + 1,fun m hm => ?_⟩
      obtain ⟨m,rfl⟩ := Nat.exists_eq_add_of_le' hm
      rw [← Nat.add_assoc, Function.iterate_succ_apply, hn _ (by omega), residue_slowed hlimit hfactor]

theorem residue_bounds (hlimit : 0 ≤ limit) (hfactor : 0 ≤ factor ∧ factor ≤ 255) (v : Int) :
    -255 ≤ residue limit factor v ∧ residue limit factor v ≤ 0 ∧
      (residue limit factor v = 0 ↔ 0 ≤ v ∨ factor = 0 ∨ limit = 0) := by
  have hmost : 255 / (256 - factor) ≤ 255 := Int.ediv_le_self _ (by omega)
  have hzero : 255 / (256 - factor) ≤ 0 ↔ factor = 0 := by
    rw [← Int.lt_add_one_iff, Int.ediv_lt_iff_lt_mul (by omega)]
    omega
  have hnonneg : 0 ≤ 255 / (256 - factor) := Int.ediv_nonneg (by omega) (by omega)
  rw [residue]
  split <;> omega

end numbers

/-- A shift to the right divides and rounds down. -/
theorem toInt_shiftRight_eight (v : Int16) : (v >>> 8).toInt = v.toInt / 256 := by
  have hamount : ((8 : Int16).toBitVec.smod 16).toNat = 8 := by decide
  rw [← Int16.toInt_toBitVec, Int16.toBitVec_shiftRight, BitVec.sshiftRight_eq', hamount,
    BitVec.toInt_sshiftRight, Int16.toInt_toBitVec, Int.shiftRight_eq_div_pow]
  rfl

theorem toInt_vx_advance {b : Body} (hlimited : b.Limited) (hfriction : b.friction.IsFraction)
    (gravity : Fixed) :
    (b.advance gravity).vx.toInt = slowed b.maxVx.raw.toInt b.friction.raw.toInt b.vx.toInt := by
  change (clamp (-b.maxVx.raw) b.maxVx.raw (b.friction.scale b.vx)).toInt = _
  rw [toInt_clamp hlimited.1, toInt_scale hfriction]
  rfl

def Body.residue (b : Body) : Int :=
  Physics.residue b.maxVx.raw.toInt b.friction.raw.toInt b.vx.toInt

namespace Simulation

variable {w : World} {s : Simulation} {k : Nat} {b : Body}

/-- Frame after frame friction takes its part of a body's velocity, whatever else happens to the body. -/
theorem toInt_vx_iterate (w : World) (hactive : b.active = true) (hmass : b.mass ≠ 0) (hlimited : b.Limited)
    (hfriction : b.friction.IsFraction) (n : Nat) :
    ((integrateBody w)^[n] b).vx.toInt = (slowed b.maxVx.raw.toInt b.friction.raw.toInt)^[n] b.vx.toInt := by
  induction n with
  | zero => rfl
  | succ n ih =>
    obtain ⟨hsame,hx,-⟩ := Body.drag_eq_iff.mp (drag_iterate w b n)
    rw [iterate_succ_of_moving w hactive hmass, toInt_vx_advance (limited_iterate w hlimited n), hsame, hx, ih,
      Function.iterate_succ_apply']
    rwa [hsame]

/-- Without pairs, friction of less than one brings a body to a velocity to the side that stays. It is zero, and
the body stands still, unless the body moved to the left and neither friction nor the limit of its speed takes
everything; then the velocity is the residue, and the body drifts to the left by one pixel a frame. -/
theorem friction_leaves_residue (hvalid : w.validate = .ok ()) (hpairs : w.pairs = []) (h : w.Governs s)
    (hb : s.bodies[k]? = some b) (hactive : b.active = true) (hmass : b.mass ≠ 0)
    (hfriction : 0 ≤ b.friction.raw.toInt ∧ b.friction.raw.toInt ≤ 255) :
    (-255 ≤ b.residue ∧ b.residue ≤ 0 ∧
      (b.residue = 0 ↔ 0 ≤ b.vx.toInt ∨ b.friction.raw.toInt = 0 ∨ b.maxVx.raw.toInt = 0)) ∧
      ∃ n, ∀ m, n ≤ m → ∃ b' b'', (s.run m).1.bodies[k]? = some b' ∧ (s.run (m + 1)).1.bodies[k]? = some b'' ∧
        b'.vx.toInt = b.residue ∧ b''.vx = b'.vx ∧ b''.x = b'.x + (if b.residue = 0 then 0 else -1 : Int16) := by
  have hlimited := h.limited hvalid (Array.mem_iff_getElem?.mpr ⟨k,hb⟩)
  have hlimit := toInt_nonneg hlimited.1
  have hfraction : b.friction.IsFraction := ⟨hfriction.1,by omega⟩
  have hnone : s.world.pairs = [] := h.world ▸ hpairs
  have hbounds := residue_bounds hlimit hfriction b.vx.toInt
  obtain ⟨n,hn⟩ := exists_iterate_slowed hlimit hfriction b.vx.toInt
  refine ⟨hbounds,n,fun m hm => ⟨_,_,by rw [run_slot hnone, hb, Option.map_some],
    by rw [run_slot hnone, hb, Option.map_some],?_⟩⟩
  have hvx {m : Nat} (hm : n ≤ m) : ((integrateBody s.world)^[m] b).vx.toInt = b.residue :=
    (toInt_vx_iterate s.world hactive hmass hlimited hfraction m).trans (hn m hm)
  refine ⟨hvx hm,Int16.toInt_inj.mp ((hvx (Nat.le_succ_of_le hm)).trans (hvx hm).symm),?_⟩
  have hstep : ((integrateBody s.world)^[m + 1] b).x =
      ((integrateBody s.world)^[m] b).x + (((integrateBody s.world)^[m + 1] b).vx >>> 8) := by
    rw [iterate_succ_of_moving s.world hactive hmass]
    rfl
  have hpixels : ((integrateBody s.world)^[m + 1] b).vx >>> 8 = if b.residue = 0 then 0 else -1 := by
    refine Int16.toInt_inj.mp ?_
    rw [toInt_shiftRight_eight, hvx (Nat.le_succ_of_le hm)]
    have hrange : -255 ≤ b.residue ∧ b.residue ≤ 0 := ⟨hbounds.1,hbounds.2.1⟩
    split
    next hzero => rw [hzero]; rfl
    next hne =>
      change b.residue / 256 = -1
      omega
  rw [hstep, hpixels]

def rink (friction : Int16) : Game where
  name := "rink"
  entities := [⟨"puck", "puck", 8, 8, 20, 0⟩]
  physics := some { friction := ⟨friction⟩, bodies := [{ entity := "puck", mass := 1 }] }

def puck (friction vx : Int16) : Body := ⟨20, 0, vx, 0, 8, 8, "puck", 1, ⟨friction⟩, .greatest, .greatest, true⟩

def sliding (friction vx : Int16) : Simulation := ⟨(rink friction).physics.getD {}, #[puck friction vx]⟩

theorem played_sliding (friction vx : Int16) : (sliding friction vx).Played (rink friction) :=
  .edit (e := ⟨20, 0, vx, 0, true⟩) (.start (s := sliding friction 0) rfl)
    (show (sliding friction 0).modify? 0 _ = some (sliding friction vx) from rfl)

theorem governs_sliding (friction vx : Int16) : (sliding friction vx).world.Governs (sliding friction vx) :=
  (played_sliding friction vx).governs

/-- Friction of 250/256 leaves a fast puck 42 units to the left. -/
theorem friction_leaves_puck_residue :
    (sliding 250 (-300)).Played (rink 250) ∧ (sliding 250 (-300)).world.validate = .ok () ∧
      (sliding 250 (-300)).world.pairs = [] ∧
      (sliding 250 (-300)).world.Governs (sliding 250 (-300)) ∧
      (sliding 250 (-300)).bodies[0]? = some (puck 250 (-300)) ∧ (puck 250 (-300)).active = true ∧
      (puck 250 (-300)).mass ≠ 0 ∧
      (0 ≤ (puck 250 (-300)).friction.raw.toInt ∧ (puck 250 (-300)).friction.raw.toInt ≤ 255) ∧
      (puck 250 (-300)).residue = -42 ∧
      (-255 ≤ (puck 250 (-300)).residue ∧ (puck 250 (-300)).residue ≤ 0 ∧
        ((puck 250 (-300)).residue = 0 ↔ 0 ≤ (puck 250 (-300)).vx.toInt ∨
          (puck 250 (-300)).friction.raw.toInt = 0 ∨ (puck 250 (-300)).maxVx.raw.toInt = 0)) ∧
      ∃ n, ∀ m, n ≤ m → ∃ b' b'', ((sliding 250 (-300)).run m).1.bodies[0]? = some b' ∧
        ((sliding 250 (-300)).run (m + 1)).1.bodies[0]? = some b'' ∧
        b'.vx.toInt = (puck 250 (-300)).residue ∧ b''.vx = b'.vx ∧
        b''.x = b'.x + (if (puck 250 (-300)).residue = 0 then 0 else -1 : Int16) :=
  ⟨played_sliding 250 (-300),rfl,rfl,governs_sliding 250 (-300),rfl,rfl,by decide,by decide,by decide,
    friction_leaves_residue (w := (sliding 250 (-300)).world) rfl rfl (governs_sliding 250 (-300))
      (rfl : (sliding 250 (-300)).bodies[0]? = some (puck 250 (-300))) rfl (by decide) (by decide)⟩

/-- Half of the smallest velocity to the left is rounded to all of it, frame after frame. -/
theorem puck_never_rests :
    (sliding 128 (-1)).Played (rink 128) ∧ (sliding 128 (-1)).world.pairs = [] ∧
      (sliding 128 (-1)).bodies[0]? = some (puck 128 (-1)) ∧ (puck 128 (-1)).active = true ∧
      (puck 128 (-1)).mass ≠ 0 ∧
      (0 ≤ (puck 128 (-1)).friction.raw.toInt ∧ (puck 128 (-1)).friction.raw.toInt ≤ 255) ∧
      ¬∃ n, ∀ m, n ≤ m → ∃ b', ((sliding 128 (-1)).run m).1.bodies[0]? = some b' ∧ b'.vx = 0 := by
  refine ⟨played_sliding 128 (-1),rfl,rfl,rfl,by decide,by decide,?_⟩
  rintro ⟨n,hn⟩
  obtain ⟨b',hb',hvx⟩ := hn n (Nat.le_refl n)
  have hkept : slowed 32767 128 (-1) = -1 := by decide
  have hslot : ((sliding 128 (-1)).run n).1.bodies[0]? =
      some ((integrateBody (sliding 128 (-1)).world)^[n] (puck 128 (-1))) := run_slot rfl
  obtain rfl := Option.some.inj (hslot.symm.trans hb')
  have hmoves := toInt_vx_iterate (b := puck 128 (-1)) (sliding 128 (-1)).world rfl (by decide)
    (by constructor <;> decide) (by constructor <;> decide) n
  rw [hvx] at hmoves
  exact absurd (hmoves.trans (Function.iterate_fixed hkept n)) (by decide)

end Simulation

end Cartridge.Physics
