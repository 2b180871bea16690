import Cartridge.Proofs.Physics.Run

/-!
A fall from rest. Gravity is added in sixteen bits before the velocity is clamped, so the clamp holds every velocity
within the limit, but where the sum wraps around it holds it at the wrong end: the body that fell rises.
-/
namespace Cartridge.Physics

/-- A sum that only grows is either the true one or wraps around once. -/
theorem toInt_add_of_nonneg (v : Int16) {a : Int16} (h : 0 ≤ a.toInt) :
    (v + a).toInt =
      if v.toInt + a.toInt ≤ 32767 then v.toInt + a.toInt else v.toInt + a.toInt - 65536 := by
  have hv := v.le_toInt
  have hv' := v.toInt_lt
  have ha := a.toInt_lt
  rw [Int16.toInt_add, Int.bmod]
  split <;> split <;> omega

namespace Body

def FallsWithin (b : Body) : Prop := -b.maxVy.raw.toInt ≤ b.vy.toInt ∧ b.vy.toInt ≤ b.maxVy.raw.toInt

theorem fallsWithin_advance {b : Body} (h : b.Limited) (gravity : Fixed) : (b.advance gravity).FallsWithin :=
  clamp_bounds h.2 _

/-- Under a gravity that pulls down, a velocity within the limit does not decrease, unless the sum wraps around,
and then it turns upwards. -/
theorem vy_advance {b : Body} (hlimited : b.Limited) (hwithin : b.FallsWithin) {gravity : Fixed}
    (hgravity : 0 ≤ gravity.raw.toInt) :
    (b.vy.toInt ≤ (b.advance gravity).vy.toInt ↔ b.vy.toInt + gravity.raw.toInt ≤ 32767) ∧
      (32767 < b.vy.toInt + gravity.raw.toInt → (b.advance gravity).vy.toInt < 0) := by
  have hpull := gravity.raw.toInt_lt
  have hlimit := b.maxVy.raw.toInt_lt
  obtain ⟨hlow,hhigh⟩ := hwithin
  have hvy : (b.advance gravity).vy.toInt =
      max (-b.maxVy.raw.toInt) (min b.maxVy.raw.toInt (b.vy + gravity.raw).toInt) :=
    toInt_clamp hlimited.2 _
  rw [hvy, toInt_add_of_nonneg _ hgravity]
  constructor
  · split <;> omega
  · intro hwraps
    rw [if_neg (by omega)]
    omega

end Body

theorem World.gravityAt_nonneg {w : World} (hgravity : 0 ≤ w.gravity.raw.toInt)
    (hzones : ∀ z ∈ w.zones, 0 ≤ z.gravity.raw.toInt) (x y : Int16) : 0 ≤ (w.gravityAt x y).raw.toInt := by
  rw [gravityAt]
  cases hzone : w.zones.find? fun z => z.contains x y with
  | none => exact hgravity
  | some z => exact hzones z (List.mem_of_find?_eq_some hzone)

namespace Simulation

variable {g : Game} {s : Simulation} {b : Body} {k n : Nat}

/-- From rest, a body is within its limit after any number of frames. -/
theorem fallsWithin_iterate (w : World) (hrest : b.vy = 0) (hactive : b.active = true) (hmass : b.mass ≠ 0)
    (hlimited : b.Limited) (n : Nat) : ((integrateBody w)^[n] b).FallsWithin := by
  cases n with
  | zero =>
    have hlimit := toInt_nonneg hlimited.2
    have hzero : b.vy.toInt = 0 := by rw [hrest]; rfl
    change -b.maxVy.raw.toInt ≤ b.vy.toInt ∧ b.vy.toInt ≤ b.maxVy.raw.toInt
    omega
  | succ n =>
    rw [iterate_succ_of_moving w hactive hmass]
    exact Body.fallsWithin_advance (limited_iterate w hlimited n) _

theorem rest_of_ofGame (h : ofGame g = .ok s) (hb : b ∈ s.bodies) : b.vy = 0 := by
  obtain ⟨_,-,hs⟩ := bind_eq_ok h
  obtain rfl := Except.ok.inj hs
  obtain ⟨i,-,rfl⟩ := List.mem_map.mp (List.mem_toArray.mp hb)
  rfl

/-- In a game without pairs, where no gravity pulls upwards, the vertical velocity of a moving body is never above
its limit. From one frame to the next it does not decrease if and only if it and the gravity at the body's place
add up within sixteen bits; otherwise the body rises. So a limit that leaves room for the gravity keeps it from
rising. -/
theorem fall_goes_on_unless_wrapped (h : ofGame g = .ok s) (hpairs : s.world.pairs = [])
    (hgravity : 0 ≤ s.world.gravity.raw.toInt) (hzones : ∀ z ∈ s.world.zones, 0 ≤ z.gravity.raw.toInt)
    (hb : (s.run n).1.bodies[k]? = some b) (hactive : b.active = true) (hmass : b.mass ≠ 0) :
    b.vy.toInt ≤ b.maxVy.raw.toInt ∧
      ∃ b', (s.run (n + 1)).1.bodies[k]? = some b' ∧
        (b.vy.toInt ≤ b'.vy.toInt ↔
          b.vy.toInt + (s.world.gravityAt b.x b.y).raw.toInt ≤ 32767) ∧
        (32767 < b.vy.toInt + (s.world.gravityAt b.x b.y).raw.toInt → b'.vy.toInt < 0) := by
  rw [run_slot hpairs] at hb
  obtain ⟨b₀,hb₀,rfl⟩ := Option.map_eq_some_iff.mp hb
  have hmem : b₀ ∈ s.bodies := Array.mem_iff_getElem?.mpr ⟨k,hb₀⟩
  have hfixture := fixture_iterate s.world b₀ n
  have hactive₀ : b₀.active = true := Body.active_eq_of_fixture_eq hfixture ▸ hactive
  have hmass₀ : b₀.mass ≠ 0 := Body.mass_eq_of_fixture_eq hfixture ▸ hmass
  have hlimited := limited_of_ofGame h hmem
  have hwithin := fallsWithin_iterate s.world (rest_of_ofGame h hmem) hactive₀ hmass₀ hlimited n
  refine ⟨hwithin.2,_,by rw [run_slot hpairs, hb₀, Option.map_some],?_⟩
  rw [iterate_succ_of_moving s.world hactive₀ hmass₀]
  exact Body.vy_advance (limited_iterate s.world hlimited n) hwithin (World.gravityAt_nonneg hgravity hzones _ _)

def well : Game where
  name := "well"
  entities := [⟨"stone", "stone", 8, 8, 0, 0⟩]
  physics := some { gravity := .one, bodies := [{ entity := "stone", mass := 1 }] }

def stone (y vy : Int16) : Body := ⟨0, y, 0, vy, 8, 8, "stone", 1, .one, .greatest, .greatest, true⟩

def overWell : Simulation := ⟨well.physics.getD {}, #[stone 0 0]⟩

/-- For 127 frames the stone falls faster and faster. -/
theorem stone_falls_for_long :
    ofGame well = .ok overWell ∧ overWell.world.pairs = [] ∧ 0 ≤ overWell.world.gravity.raw.toInt ∧
      (∀ z ∈ overWell.world.zones, 0 ≤ z.gravity.raw.toInt) ∧
      (overWell.run 126).1.bodies[0]? = some (stone 8001 32256) ∧ (stone 8001 32256).active = true ∧
      (stone 8001 32256).mass ≠ 0 ∧
      (stone 8001 32256).vy.toInt ≤ (stone 8001 32256).maxVy.raw.toInt ∧
      ∃ b', (overWell.run 127).1.bodies[0]? = some b' ∧
        ((stone 8001 32256).vy.toInt ≤ b'.vy.toInt ↔
          (stone 8001 32256).vy.toInt + (overWell.world.gravityAt 0 8001).raw.toInt ≤ 32767) ∧
        (32767 < (stone 8001 32256).vy.toInt + (overWell.world.gravityAt 0 8001).raw.toInt →
          b'.vy.toInt < 0) := by
  have hlast : (overWell.run 126).1.bodies[0]? = some (stone 8001 32256) := by decide +kernel
  exact ⟨rfl,rfl,by decide,by decide,hlast,rfl,by decide,
    fall_goes_on_unless_wrapped (g := well) rfl rfl (by decide) (by decide) hlast rfl (by decide)⟩

/-- In the frame after that it rises, as fast as it can. -/
theorem stone_rises :
    ofGame well = .ok overWell ∧ overWell.world.pairs = [] ∧ 0 ≤ overWell.world.gravity.raw.toInt ∧
      (∀ z ∈ overWell.world.zones, 0 ≤ z.gravity.raw.toInt) ∧
      (overWell.run 127).1.bodies[0]? = some (stone 8128 32512) ∧
      (overWell.run 128).1.bodies[0]? = some (stone 8000 (-32767)) ∧
      (stone 8128 32512).active = true ∧ (stone 8128 32512).mass ≠ 0 ∧
      ¬(stone 8128 32512).vy.toInt ≤ (stone 8000 (-32767)).vy.toInt :=
  ⟨rfl,rfl,by decide,by decide,by decide +kernel,by decide +kernel,rfl,by decide,by decide⟩

end Simulation

end Cartridge.Physics
