import Cartridge.Proofs.Physics.Contest
import Cartridge.Proofs.Physics.Separation

/-!
What a frame leaves alone. Moving and pushing change position and velocity and nothing else; a body that is
switched off keeps these too, and an obstacle keeps its position.
-/
namespace Cartridge.Physics

namespace Body

/-- Bodies with one fixture differ in position and velocity at most. -/
theorem eq_of_fixture_eq {b b' : Body} (h : b'.fixture = b.fixture) :
    b' = { b with x := b'.x, y := b'.y, vx := b'.vx, vy := b'.vy } := by
  simp only [fixture, mk.injEq] at h
  obtain ⟨-,-,-,-,hrest⟩ := h
  cases b'
  simp only [mk.injEq] at hrest ⊢
  exact ⟨trivial,trivial,trivial,trivial,hrest⟩

def held (b : Body) : Body := if b.mass = 0 then { b with vx := 0, vy := 0 } else b.fixture

@[simp] theorem fixture_held (b : Body) : b.held.fixture = b.fixture := by
  rw [held]
  split <;> rfl

theorem mass_eq_of_fixture_eq {b b' : Body} (h : b'.fixture = b.fixture) : b'.mass = b.mass := by
  change b'.fixture.mass = b.fixture.mass
  rw [h]

theorem held_eq_iff {b b' : Body} :
    b'.held = b.held ↔ b'.fixture = b.fixture ∧ (b.mass = 0 → b'.x = b.x ∧ b'.y = b.y) := by
  constructor
  · intro h
    have hfixture : b'.fixture = b.fixture := by rw [← fixture_held b', h, fixture_held]
    refine ⟨hfixture,fun hzero => ?_⟩
    rw [held, held, if_pos hzero, if_pos ((mass_eq_of_fixture_eq hfixture).trans hzero), mk.injEq] at h
    exact ⟨h.1,h.2.1⟩
  · rintro ⟨h,hposition⟩
    have hmass := mass_eq_of_fixture_eq h
    rw [held, held, hmass]
    split
    next hzero =>
      obtain ⟨hx,hy⟩ := hposition hzero
      have hrest := eq_of_fixture_eq h
      rw [hx, hy] at hrest
      rw [hrest]
    next => exact h

theorem held_pushed (b : Body) (axis : Axis) (direction : Int16) (length : Int) (coefficient : Fixed)
    {ratio : Nat} (h : b.mass = 0 → ratio = 0) :
    (b.pushed axis direction length coefficient ratio).held = b.held := by
  refine held_eq_iff.mpr ⟨fixture_withMotion ..,fun hzero => ?_⟩
  have hstill (p : Int16) : p + direction * share length ratio = p := by
    rw [h hzero, share, Int.natCast_zero, Int.mul_zero, Int.zero_ediv]
    exact (congrArg (p + ·) Int16.mul_zero).trans (Int16.add_zero p)
  cases axis with
  | x => exact ⟨hstill b.x,rfl⟩
  | y => exact ⟨rfl,hstill b.y⟩

theorem held_separate (coefficient : Fixed) (a b : Body) :
    (separate coefficient a b).1.held = a.held ∧ (separate coefficient a b).2.held = b.held := by
  rw [separate]
  split
  next => exact ⟨rfl,rfl⟩
  next hratios =>
    have happortions := apportions_of_separationRatios hratios
    exact ⟨held_pushed _ _ _ _ _ happortions.obstacleA,held_pushed _ _ _ _ _ happortions.obstacleB⟩

end Body

namespace Simulation

variable {s : Simulation} {k : Nat} {b : Body}

theorem held_integrateBody (w : World) (b : Body) : (integrateBody w b).held = b.held := by
  rw [integrateBody]
  split
  next h =>
    have hmass : b.mass ≠ 0 := by simpa using (Bool.and_eq_true_iff.mp h).2
    exact Body.held_eq_iff.mpr ⟨rfl,fun hzero => absurd hzero hmass⟩
  next => rfl

theorem held_integrate (s : Simulation) : s.integrate.bodies.map Body.held = s.bodies.map Body.held := by
  rw [integrate, Array.map_map]
  congr 1
  funext b
  exact held_integrateBody s.world b

theorem held_step (s : Simulation) : s.step.1.bodies.map Body.held = s.bodies.map Body.held := by
  rw [← held_integrate s, step, collide_bodies]
  exact map_contests (Body.held_separate _) _ _

theorem fixtures_of_held {bodies bodies' : Array Body} (h : bodies'.map Body.held = bodies.map Body.held) :
    bodies'.map Body.fixture = bodies.map Body.fixture := by
  have hview (bodies : Array Body) : (bodies.map Body.held).map Body.fixture = bodies.map Body.fixture := by
    simp
  rw [← hview bodies', h, hview]

/-- What a view of the bodies keeps, it keeps of each. -/
theorem slot_of_map_eq {α : Type} {f : Body → α} {bodies bodies' : Array Body}
    (h : bodies'.map f = bodies.map f) (hb : bodies[k]? = some b) :
    ∃ b', bodies'[k]? = some b' ∧ f b' = f b := by
  have hk := congrArg (fun views : Array α => views[k]?) h
  simpa only [Array.getElem?_map, hb, Option.map_some, Option.map_eq_some_iff] using hk

/-- Only active bodies are in a contest. -/
theorem active_of_contest {bodies : Array Body} {pairs : List Pair} {ab : Nat × Nat}
    (h : ab ∈ contests pairs bodies) (hb : bodies[k]? = some b) (hk : ab.1 = k ∨ ab.2 = k) :
    b.active = true := by
  obtain ⟨p,-,hmem⟩ := List.mem_flatMap.mp h
  obtain ⟨hfirst,hsecond,-⟩ := mem_candidates.mp hmem
  have hactive {tag : String} (hslot : k ∈ slots bodies tag) : b.active = true := by
    obtain ⟨b',hb',hcarries⟩ := mem_slots.mp hslot
    obtain rfl : b = b' := Option.some.inj (hb.symm.trans hb')
    exact (Bool.and_eq_true_iff.mp hcarries).1
  rcases hk with rfl | rfl
  · exact hactive hfirst
  · exact hactive hsecond

theorem step_inactive (hb : s.bodies[k]? = some b) (hactive : b.active = false) :
    s.step.1.bodies[k]? = some b := by
  have hstill : integrateBody s.world b = b := by simp [integrateBody, hactive]
  have hb' : s.integrate.bodies[k]? = some b := by
    rw [integrate, Array.getElem?_map, hb, Option.map_some, hstill]
  rw [step, collide_bodies, contests_frame, hb']
  intro ab hmem
  rw [← not_or]
  intro hk
  simp [active_of_contest hmem hb' hk] at hactive

/-- A frame changes of a body at most position and velocity, nothing if the body is off, and of an obstacle no
position. -/
theorem step_slot (hb : s.bodies[k]? = some b) :
    ∃ b', s.step.1.bodies[k]? = some b' ∧
      b' = { b with x := b'.x, y := b'.y, vx := b'.vx, vy := b'.vy } ∧
      (b.active = false → b' = b) ∧ (b.mass = 0 → b'.x = b.x ∧ b'.y = b.y) := by
  obtain ⟨b',hb',hheld⟩ := slot_of_map_eq (held_step s) hb
  obtain ⟨hfixture,hposition⟩ := Body.held_eq_iff.mp hheld
  refine ⟨b',hb',Body.eq_of_fixture_eq hfixture,fun hactive => ?_,hposition⟩
  exact Option.some.inj (hb'.symm.trans (step_inactive hb hactive))

end Simulation

end Cartridge.Physics
