import Cartridge.Proofs.Game.Valid
import Cartridge.Proofs.Physics.Frame
import Cartridge.Proofs.Physics.Obstacle

/-!
The physics of a game that is being played: frames pass, and between them bodies may be placed elsewhere, get
another velocity, and be switched on or off. How a body was set up stays through all of this, so the limits of
its speed are those that were checked before the first frame.
-/
namespace Cartridge.Physics

/-- What may be changed of a body between frames. -/
structure Edit where
  x : Int16
  y : Int16
  vx : Int16
  vy : Int16
  active : Bool

namespace Body

def edited (b : Body) (e : Edit) : Body :=
  { b with x := e.x, y := e.y, vx := e.vx, vy := e.vy, active := e.active }

/-- What of a body neither a frame nor an edit changes. -/
def setup (b : Body) : Body := { b.fixture with active := false }

def Limited (b : Body) : Prop := 0 ≤ b.maxVx.raw ∧ 0 ≤ b.maxVy.raw

def Within (b : Body) : Prop :=
  (-b.maxVx.raw.toInt ≤ b.vx.toInt ∧ b.vx.toInt ≤ b.maxVx.raw.toInt) ∧
    -b.maxVy.raw.toInt ≤ b.vy.toInt ∧ b.vy.toInt ≤ b.maxVy.raw.toInt

theorem limited_setup {b : Body} : b.setup.Limited ↔ b.Limited := Iff.rfl

end Body

theorem toInt_nonneg {limit : Int16} (h : 0 ≤ limit) : 0 ≤ limit.toInt := Int16.le_iff_toInt_le.mp h

theorem toInt_neg_of_nonneg {limit : Int16} (h : 0 ≤ limit) : (-limit).toInt = -limit.toInt := by
  have hle : limit.toInt < 32768 := limit.toInt_lt
  have hge := toInt_nonneg h
  rw [Int16.toInt_neg]
  exact Int.bmod_eq_of_le (by omega) (by omega)

theorem toInt_clamp {limit : Int16} (h : 0 ≤ limit) (v : Int16) :
    (clamp (-limit) limit v).toInt = max (-limit.toInt) (min limit.toInt v.toInt) := by
  have hneg := toInt_neg_of_nonneg h
  have hge := toInt_nonneg h
  rw [clamp]
  simp only [Int16.lt_iff_toInt_lt, hneg]
  split
  · omega
  · split <;> omega

/-- A range around zero is no empty one, and clamping leads into it. -/
theorem clamp_bounds {limit : Int16} (h : 0 ≤ limit) (v : Int16) :
    -limit.toInt ≤ (clamp (-limit) limit v).toInt ∧ (clamp (-limit) limit v).toInt ≤ limit.toInt := by
  have hge := toInt_nonneg h
  rw [toInt_clamp h]
  omega

namespace Simulation

/-- States of a game that is being played. -/
inductive Played (g : Game) : Simulation → Prop
  | start {s : Simulation} (h : ofGame g = .ok s) : Played g s
  | step {s : Simulation} (h : Played g s) : Played g s.step.1
  | edit {s s' : Simulation} {slot : Nat} {e : Edit} (h : Played g s)
      (hedit : s.modify? slot (·.edited e) = some s') : Played g s'

variable {g : Game} {s s' : Simulation} {b : Body}

theorem setup_step (s : Simulation) : s.step.1.bodies.map Body.setup = s.bodies.map Body.setup := by
  have hview (bodies : Array Body) : (bodies.map Body.fixture).map (fun b => { b with active := false }) =
      bodies.map Body.setup := Array.map_map
  rw [← hview, fixtures_of_held (held_step s), hview]

theorem setup_edit {slot : Nat} {e : Edit} (h : s.modify? slot (·.edited e) = some s') :
    s'.bodies.map Body.setup = s.bodies.map Body.setup := by
  rw [modify?] at h
  split at h
  · obtain rfl := Option.some.inj h
    refine Array.ext_getElem? fun k => ?_
    rw [Array.getElem?_map, Array.getElem?_map, Array.getElem?_modify]
    split
    · rw [Option.map_map]
      rfl
    · rfl
  · cases h

/-- Bodies stay as they were set up at the start, in their slots. -/
theorem Played.setup (h : Played g s) :
    ∃ s₀, ofGame g = .ok s₀ ∧ s.bodies.map Body.setup = s₀.bodies.map Body.setup := by
  induction h with
  | start h => exact ⟨_,h,rfl⟩
  | step _ ih =>
    obtain ⟨s₀,hstart,hsetup⟩ := ih
    exact ⟨s₀,hstart,(setup_step _).trans hsetup⟩
  | edit _ hedit ih =>
    obtain ⟨s₀,hstart,hsetup⟩ := ih
    exact ⟨s₀,hstart,(setup_edit hedit).trans hsetup⟩

/-- A world whose bodies pass their check sets limits that are no negative numbers. -/
theorem limited_bodyOf {w : World} (hvalid : w.validate = .ok ()) (i : Instance) : (bodyOf w i).Limited := by
  have hgreatest : 0 ≤ Fixed.greatest.raw := by decide
  rw [Body.Limited, bodyOf]
  rcases hbody : w.body? i.entity with _ | d
  · exact ⟨hgreatest,hgreatest⟩
  · exact (BodyDef.of_validate (forM_eq_ok hvalid d (List.mem_of_find?_eq_some hbody))).2

theorem limited_of_ofGame (h : ofGame g = .ok s) (hb : b ∈ s.bodies) : b.Limited := by
  obtain ⟨_,hvalid,hs⟩ := bind_eq_ok h
  obtain rfl := Except.ok.inj hs
  obtain ⟨i,-,rfl⟩ := List.mem_map.mp (List.mem_toArray.mp hb)
  exact limited_bodyOf hvalid i

theorem Played.limited (h : Played g s) (hb : b ∈ s.bodies) : b.Limited := by
  obtain ⟨s₀,hstart,hsetup⟩ := h.setup
  obtain ⟨k,hk⟩ := Array.mem_iff_getElem?.mp hb
  obtain ⟨b₀,hb₀,hsame⟩ := slot_of_map_eq hsetup.symm hk
  rw [← Body.limited_setup, ← hsame, Body.limited_setup]
  exact limited_of_ofGame hstart (Array.mem_iff_getElem?.mpr ⟨k,hb₀⟩)

/-- Movement ends with a clamp. -/
theorem within_advance (h : b.Limited) (gravity : Fixed) : (b.advance gravity).Within :=
  ⟨clamp_bounds h.1 _,clamp_bounds h.2 _⟩

theorem Played.within (h : Played g s) (hb : b ∈ s.integrate.bodies) (hactive : b.active = true)
    (hmass : b.mass ≠ 0) : b.Within := by
  obtain ⟨b₀,hb₀,rfl⟩ := Array.mem_map.mp hb
  rw [integrateBody] at hactive hmass ⊢
  split at hactive
  next hmoves =>
    rw [if_pos hmoves]
    exact within_advance (h.limited hb₀) _
  next hstays =>
    rw [if_neg hstays] at hmass
    simp [hactive, hmass] at hstays

/-- Whenever a frame passes in a game that is being played, a body keeps everything but position and velocity; a
body that is off keeps these too, and an obstacle its position. Once all have moved, and before any collision,
each active body that is no obstacle is within the limits of its speed. -/
theorem frame_leaves_alone (h : Played g s) :
    s.step.1.bodies.size = s.bodies.size ∧
      (∀ (k : Nat) (b : Body), s.bodies[k]? = some b → ∃ b', s.step.1.bodies[k]? = some b' ∧
        b' = { b with x := b'.x, y := b'.y, vx := b'.vx, vy := b'.vy } ∧
        (b.active = false → b' = b) ∧ (b.mass = 0 → b'.x = b.x ∧ b'.y = b.y)) ∧
      ∀ b ∈ s.integrate.bodies, b.active = true → b.mass ≠ 0 → b.Within := by
  refine ⟨?_,fun k b hb => step_slot hb,fun b hb hactive hmass => h.within hb hactive hmass⟩
  rw [← Array.size_map (f := Body.held), held_step, Array.size_map]

def kicked : Simulation :=
  ⟨(onLedge 28).world, #[{ crateAt 28 30 with vx := 400, vy := -600 },ledge]⟩

theorem played_kicked : Played (ledgeGame 28) kicked :=
  .edit (.start rfl) (show (onLedge 28).modify? 0 (·.edited ⟨28, 30, 400, -600, true⟩) = some kicked from rfl)

theorem frame_leaves_ledge_alone :
    Played (ledgeGame 28) kicked.step.1 ∧ kicked.step.1.step.1.bodies.size = kicked.step.1.bodies.size ∧
      (∀ (k : Nat) (b : Body), kicked.step.1.bodies[k]? = some b →
        ∃ b', kicked.step.1.step.1.bodies[k]? = some b' ∧
          b' = { b with x := b'.x, y := b'.y, vx := b'.vx, vy := b'.vy } ∧
          (b.active = false → b' = b) ∧ (b.mass = 0 → b'.x = b.x ∧ b'.y = b.y)) ∧
      ∀ b ∈ kicked.step.1.integrate.bodies, b.active = true → b.mass ≠ 0 → b.Within :=
  ⟨played_kicked.step,frame_leaves_alone played_kicked.step⟩

end Simulation

end Cartridge.Physics
