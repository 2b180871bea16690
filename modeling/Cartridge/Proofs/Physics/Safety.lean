import Cartridge.Proofs.Physics.Checked

/-!
A frame on a machine that checks its arithmetic. While a game is being played no frame stops with a trap: the
limits of the speed have passed their check, and bodies are pushed apart only where their boxes overlap.
-/
namespace Cartridge.Physics

namespace Checked

/-- Both sums are checked, also where an earlier comparison decides. -/
def contains (z : Zone) (x y : Int16) : Except Trap Bool := do
  let right ← Width.i32.fit (z.x.toInt + z.width.toNat)
  let bottom ← Width.i32.fit (z.y.toInt + z.height.toNat)
  return z.x.toInt ≤ x.toInt && x.toInt < right && z.y.toInt ≤ y.toInt && y.toInt < bottom

def gravityAt (w : World) (x y : Int16) : Except Trap Fixed := do
  let zone ← w.zones.findM? fun z => contains z x y
  return (zone.map Zone.gravity).getD w.gravity

def integrateBody (w : World) (b : Body) : Except Trap Body := do
  if b.active && b.mass ≠ 0 then advance b (← gravityAt w b.x b.y) else return b

def integrate (s : Simulation) : Except Trap Simulation := do
  let bodies ← s.bodies.mapM (integrateBody s.world)
  return { s with bodies }

def visit (coefficient : Fixed) (solid : Bool) :
    List (Nat × Nat) → Array Body → Except Trap (Array Body × List (Nat × Nat))
  | [], bodies => return (bodies, [])
  | (a, b) :: rest, bodies =>
    match bodies[a]?, bodies[b]? with
    | some x, some y => do
      if ← overlaps x y then
        let (x, y) ← (if solid then separate coefficient x y else pure (x, y))
        let (bodies, hits) ←
          visit coefficient solid rest ((bodies.setIfInBounds a x).setIfInBounds b y)
        return (bodies, (a, b) :: hits)
      else visit coefficient solid rest bodies
    | _, _ => visit coefficient solid rest bodies

def collidePairs (coefficient : Fixed) (place : Nat) :
    List Pair → Array Body → Except Trap (Array Body × List Hit)
  | [], bodies => return (bodies, [])
  | p :: rest, bodies => do
    let (bodies, hits) ← visit coefficient p.solid (Simulation.candidates bodies p) bodies
    let (bodies, later) ← collidePairs coefficient (place + 1) rest bodies
    return (bodies, hits.map (fun (a, b) => ⟨place, a, b⟩) ++ later)

def collide (s : Simulation) : Except Trap (Simulation × List Hit) := do
  let (bodies, hits) ← collidePairs s.world.bounce 0 s.world.pairs s.bodies
  return ({ s with bodies }, hits)

def step (s : Simulation) : Except Trap (Simulation × List Hit) := do collide (← integrate s)

theorem contains_eq (z : Zone) (x y : Int16) : contains z x y = .ok (z.contains x y) := by
  have hx := natAbs_toInt z.x
  have hy := natAbs_toInt z.y
  have hwidth := z.width.toNat_lt
  have hheight := z.height.toNat_lt
  exact bind_of_ok (fit_i32 (by omega)) (bind_of_ok (fit_i32 (by omega)) rfl)

theorem gravityAt_eq (w : World) (x y : Int16) : gravityAt w x y = .ok (w.gravityAt x y) := by
  have hzones : w.zones.findM? (fun z => contains z x y) = .ok (w.zones.find? fun z => z.contains x y) := by
    simp only [contains_eq]
    exact List.findM?_pure ..
  exact bind_of_ok hzones rfl

theorem integrateBody_eq {b : Body} (h : b.Limited) (w : World) :
    integrateBody w b = .ok (Simulation.integrateBody w b) := by
  rw [integrateBody, Simulation.integrateBody]
  split
  · exact bind_of_ok (gravityAt_eq ..) (advance_eq h _)
  · rfl

theorem integrate_eq {s : Simulation} (h : ∀ b ∈ s.bodies, b.Limited) : integrate s = .ok s.integrate := by
  have hbodies : s.bodies.mapM (integrateBody s.world) =
      .ok (s.bodies.map (Simulation.integrateBody s.world)) := by
    rw [Array.mapM_eq_mapM_toList, mapM_of_ok fun b hb => integrateBody_eq (h b (Array.mem_toList_iff.mp hb)) _,
      ← Array.toList_map]
    rfl
  exact bind_of_ok hbodies rfl

theorem visit_eq (coefficient : Fixed) (solid : Bool) (slots : List (Nat × Nat)) (bodies : Array Body) :
    visit coefficient solid slots bodies = .ok (Simulation.visit coefficient solid slots bodies) := by
  induction slots generalizing bodies with
  | nil => rfl
  | cons ab slots ih =>
    obtain ⟨a,b⟩ := ab
    rw [visit, Simulation.visit]
    rcases bodies[a]? with _ | x
    · exact ih bodies
    rcases bodies[b]? with _ | y
    · exact ih bodies
    refine bind_of_ok (overlaps_eq ..) ?_
    by_cases hoverlap : x.box.overlaps y.box = true
    · have hpushed : (if solid then separate coefficient x y else pure (x,y)) =
          .ok (if solid then Body.separate coefficient x y else (x,y)) := by
        cases solid with
        | true => exact separate_eq coefficient hoverlap
        | false => rfl
      simp only [hoverlap, if_true]
      exact bind_of_ok hpushed (bind_of_ok (ih _) rfl)
    · simp only [hoverlap]
      exact ih bodies

theorem collidePairs_eq (coefficient : Fixed) (place : Nat) (pairs : List Pair) (bodies : Array Body) :
    collidePairs coefficient place pairs bodies =
      .ok (Simulation.collidePairs coefficient place pairs bodies) := by
  induction pairs generalizing place bodies with
  | nil => rfl
  | cons p pairs ih => exact bind_of_ok (visit_eq ..) (bind_of_ok (ih ..) rfl)

theorem collide_eq (s : Simulation) : collide s = .ok s.collide := bind_of_ok (collidePairs_eq ..) rfl

end Checked

/-- While a game is being played, a frame on a machine that checks its arithmetic never stops, and does what the
unchecked frame does. -/
theorem frame_never_traps {g : Game} {s : Simulation} (h : s.Played g) : Checked.step s = .ok s.step :=
  bind_of_ok (Checked.integrate_eq fun _ hb => h.limited hb) (Checked.collide_eq _)

def abyss : Game where
  name := "abyss"
  entities := [⟨"boulder", "rock", 255, 255, 32767, 32767⟩,⟨"pebble", "rock", 255, 255, 32700, 32767⟩]
  physics := some
    { gravity := .least
      friction := .least
      bounce := .least
      zones := [⟨32767, 32767, 65535, 65535, .greatest⟩]
      bodies := [{ entity := "boulder", mass := 255 },{ entity := "pebble", mass := 1, maxVy := .zero }]
      pairs := [{ tagA := "rock", tagB := "rock" }] }

def thrown : Simulation where
  world := abyss.physics.getD {}
  bodies := #[⟨32767, 32767, -32768, 32767, 255, 255, "rock", 255, .least, .greatest, .greatest, true⟩,
    ⟨32700, 32767, 0, 0, 255, 255, "rock", 1, .least, .greatest, .zero, true⟩]

theorem played_thrown : thrown.Played abyss :=
  .edit (e := ⟨32767, 32767, -32768, 32767, true⟩)
    (.start (s := ⟨_,(abyss.instances.map (Simulation.bodyOf (abyss.physics.getD {}))).toArray⟩) rfl)
    (show Simulation.modify? _ 0 _ = some thrown from rfl)

theorem thrown_never_traps :
    thrown.Played abyss ∧ thrown.step.2 = [⟨0,0,1⟩] ∧ Checked.step thrown = .ok thrown.step :=
  ⟨played_thrown,by decide +kernel,frame_never_traps played_thrown⟩

/-- Of two bodies that do not overlap the shares may be out of all bounds. -/
example : Checked.separate .one
    { Body.crate 32767 1 with width := 0 } { Body.crate (-32768) 1 with width := 0 } =
      .error (.overflow .i16 32768) := rfl

/-- The least number is no limit: it has no negative. -/
example : Checked.clampSpeed .least 0 = .error (.overflow .i16 32768) := rfl

end Cartridge.Physics
