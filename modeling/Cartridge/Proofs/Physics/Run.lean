import Mathlib.Logic.Function.Iterate
import Cartridge.Proofs.Physics.Play

/-!
Frame after frame in one world. Frictions and limits of speed are set by the world and stay through every frame,
whatever else of a body is changed. Without pairs each body goes its way alone, by one function again and again.
-/
namespace Cartridge.Physics

namespace Body

def drag (b : Body) : Fixed × Fixed × Fixed := (b.friction, b.maxVx, b.maxVy)

theorem drag_eq_iff {b b' : Body} :
    b'.drag = b.drag ↔ b'.friction = b.friction ∧ b'.maxVx = b.maxVx ∧ b'.maxVy = b.maxVy := by
  simp [drag]

theorem active_eq_of_fixture_eq {b b' : Body} (h : b'.fixture = b.fixture) : b'.active = b.active := by
  change b'.fixture.active = b.fixture.active
  rw [h]

theorem drag_eq_of_fixture_eq {b b' : Body} (h : b'.fixture = b.fixture) : b'.drag = b.drag := by
  change b'.fixture.drag = b.fixture.drag
  rw [h]

end Body

/-- Each body has the friction and the limits that the world sets for some entity. Its position, velocity,
size, tag and mass, and whether it is active, may be anything. -/
structure World.Governs (w : World) (s : Simulation) : Prop where
  world : s.world = w
  bodies : ∀ b ∈ s.bodies, ∃ i, b.drag = (Simulation.bodyOf w i).drag

namespace Simulation

variable {w : World} {s : Simulation} {b : Body}

theorem governs_ofGame {g : Game} (h : ofGame g = .ok s) : (g.physics.getD {}).Governs s := by
  obtain ⟨_,-,hs⟩ := bind_eq_ok h
  obtain rfl := Except.ok.inj hs
  refine ⟨rfl,fun b hb => ?_⟩
  obtain ⟨i,-,rfl⟩ := List.mem_map.mp (List.mem_toArray.mp hb)
  exact ⟨i,rfl⟩

theorem drag_step (s : Simulation) : s.step.1.bodies.map Body.drag = s.bodies.map Body.drag := by
  have hview (bodies : Array Body) : (bodies.map Body.fixture).map Body.drag = bodies.map Body.drag :=
    Array.map_map
  rw [← hview, fixtures_of_held (held_step s), hview]

theorem drag_edit {s' : Simulation} {slot : Nat} {e : Edit} (h : s.modify? slot (·.edited e) = some s') :
    s'.bodies.map Body.drag = s.bodies.map Body.drag := by
  have hview (bodies : Array Body) : (bodies.map Body.setup).map Body.drag = bodies.map Body.drag :=
    Array.map_map
  rw [← hview, setup_edit h, hview]

end Simulation

namespace World.Governs

variable {w : World} {s : Simulation} {b : Body}

/-- What leaves frictions and limits leaves the world in charge. -/
theorem of_drag_eq {s' : Simulation} (h : w.Governs s) (hworld : s'.world = s.world)
    (hdrag : s'.bodies.map Body.drag = s.bodies.map Body.drag) : w.Governs s' := by
  refine ⟨hworld.trans h.world,fun b hb => ?_⟩
  obtain ⟨k,hk⟩ := Array.mem_iff_getElem?.mp hb
  obtain ⟨b₀,hb₀,hsame⟩ := Simulation.slot_of_map_eq hdrag.symm hk
  rw [← hsame]
  exact h.bodies b₀ (Array.mem_iff_getElem?.mpr ⟨k,hb₀⟩)

theorem step (h : w.Governs s) : w.Governs s.step.1 := h.of_drag_eq rfl (Simulation.drag_step s)

theorem edit {s' : Simulation} {slot : Nat} {e : Edit} (h : w.Governs s)
    (hedit : s.modify? slot (·.edited e) = some s') : w.Governs s' := by
  refine h.of_drag_eq ?_ (Simulation.drag_edit hedit)
  rw [Simulation.modify?] at hedit
  split at hedit
  · obtain rfl := Option.some.inj hedit
    rfl
  · cases hedit

/-- Limits that pass their check are no negative numbers. -/
theorem limited (h : w.Governs s) (hvalid : w.validate = .ok ()) (hb : b ∈ s.bodies) : b.Limited := by
  obtain ⟨i,hdrag⟩ := h.bodies b hb
  obtain ⟨-,hx,hy⟩ := Body.drag_eq_iff.mp hdrag
  rw [Body.Limited, hx, hy]
  exact Simulation.limited_bodyOf hvalid i

end World.Governs

namespace Simulation

variable {w : World} {s : Simulation} {b : Body} {k n : Nat}

/-- The world of a game governs it while it is being played. -/
theorem Played.governs {g : Game} (h : s.Played g) : (g.physics.getD {}).Governs s := by
  induction h with
  | start h => exact governs_ofGame h
  | step _ ih => exact ih.step
  | edit _ hedit ih => exact ih.edit hedit

theorem integrateBody_of_moving (w : World) (hactive : b.active = true) (hmass : b.mass ≠ 0) :
    integrateBody w b = b.advance (w.gravityAt b.x b.y) := by
  rw [integrateBody, if_pos]
  simp [hactive, hmass]

theorem fixture_iterate (w : World) (b : Body) (n : Nat) :
    ((integrateBody w)^[n] b).fixture = b.fixture := by
  induction n with
  | zero => rfl
  | succ n ih =>
    rw [Function.iterate_succ_apply', ← ih]
    exact (Body.held_eq_iff.mp (held_integrateBody w _)).1

theorem drag_iterate (w : World) (b : Body) (n : Nat) : ((integrateBody w)^[n] b).drag = b.drag :=
  Body.drag_eq_of_fixture_eq (fixture_iterate w b n)

theorem limited_iterate (w : World) (h : b.Limited) (n : Nat) : ((integrateBody w)^[n] b).Limited := by
  obtain ⟨-,hx,hy⟩ := Body.drag_eq_iff.mp (drag_iterate w b n)
  rwa [Body.Limited, hx, hy]

/-- An active body with a mass moves in every frame. -/
theorem iterate_succ_of_moving (w : World) (hactive : b.active = true) (hmass : b.mass ≠ 0) (n : Nat) :
    (integrateBody w)^[n + 1] b =
      ((integrateBody w)^[n] b).advance (w.gravityAt ((integrateBody w)^[n] b).x ((integrateBody w)^[n] b).y) := by
  have hfixture := fixture_iterate w b n
  rw [Function.iterate_succ_apply']
  exact integrateBody_of_moving w ((Body.active_eq_of_fixture_eq hfixture).trans hactive)
    (Body.mass_eq_of_fixture_eq hfixture ▸ hmass)

theorem run_succ (s : Simulation) (n : Nat) : (s.run (n + 1)).1 = (s.run n).1.step.1 := by
  induction n generalizing s with
  | zero => rfl
  | succ n ih => exact ih s.step.1

theorem step_of_no_pairs (h : s.world.pairs = []) : s.step.1 = s.integrate := by
  have hpairs : s.integrate.world.pairs = [] := h
  rw [step, collide, hpairs]
  rfl

/-- Without pairs, a run moves each body once in every frame. -/
theorem run_of_no_pairs (h : s.world.pairs = []) (n : Nat) :
    (s.run n).1 = { s with bodies := s.bodies.map ((integrateBody s.world)^[n]) } := by
  induction n with
  | zero => simp [run]
  | succ n ih =>
    have hlast : (s.run n).1.world.pairs = [] := by rw [ih, h]
    rw [run_succ, step_of_no_pairs hlast, ih, integrate, Array.map_map, ← Function.iterate_succ']

/-- What a run without pairs leaves in a slot. -/
theorem run_slot (h : s.world.pairs = []) :
    (s.run n).1.bodies[k]? = s.bodies[k]?.map ((integrateBody s.world)^[n]) := by
  rw [run_of_no_pairs h, Array.getElem?_map]

end Simulation

end Cartridge.Physics
