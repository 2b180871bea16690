import Cartridge.Proofs.Physics.Meeting

/-!
A body that ran into an obstacle. It is pushed by the length of the intersection, and that clears it unless,
on the axis of contact, one of the two lies strictly inside the other: then the way out is longer than the
intersection. The axis is chosen by the centres alone, so this happens on every floor that is much wider than
the body, except near its middle.
-/
namespace Cartridge.Physics

namespace Body

/-- On an axis, a body begins behind the begin of another and ends before its end. -/
def Inside (a b : Body) (axis : Axis) : Prop :=
  (b.position axis).toInt < (a.position axis).toInt ∧ a.far axis < b.far axis

/-- A body has been pushed off an obstacle: on the axis of contact, away from the obstacle's centre, by the
length of the intersection. -/
def PushedOff (obstacle mover mover' : Body) : Prop :=
  ∃ (direction : Int) (v : Int16), (direction = 1 ∨ direction = -1) ∧
    0 ≤ direction * gap obstacle mover (contactAxis mover obstacle) ∧
    mover' = mover.withMotion (contactAxis mover obstacle)
      (.ofInt ((mover.position (contactAxis mover obstacle)).toInt +
        direction * overlap mover obstacle (contactAxis mover obstacle))) v

theorem position_withMotion (b : Body) (axis other : Axis) (position velocity : Int16) :
    (b.withMotion axis position velocity).position other =
      if other = axis then position else b.position other := by
  cases axis <;> cases other <;> rfl

theorem far_withMotion (b : Body) (axis other : Axis) (position velocity : Int16) :
    (b.withMotion axis position velocity).far other =
      (if other = axis then position else b.position other).toInt + (b.extent other).toNat := by
  cases axis <;> cases other <;> rfl

theorem heading_cases (a b : Body) (axis : Axis) :
    (heading a b axis = 1 ∨ heading a b axis = -1) ∧ 0 ≤ heading a b axis * gap a b axis := by
  rw [heading]
  split <;> omega

variable {mover mover' obstacle obstacle' : Body}

theorem pushed_whole (b : Body) (axis : Axis) (direction : Int16) (length : Nat) (coefficient : Fixed) :
    ∃ v, b.pushed axis direction length coefficient wholeRatio =
      b.withMotion axis (.ofInt ((b.position axis).toInt + direction.toInt * length)) v := by
  obtain ⟨v,hpushed,-⟩ := b.pushed_eq axis direction length coefficient wholeRatio
  rw [wholeRatio, Nat.mul_div_cancel _ (by decide)] at hpushed
  exact ⟨v,hpushed⟩

theorem box_pushed_zero (b : Body) (axis : Axis) (direction : Int16) (length : Nat) (coefficient : Fixed) :
    (b.pushed axis direction length coefficient 0).box = b.box := by
  obtain ⟨v,hpushed,-⟩ := b.pushed_eq axis direction length coefficient 0
  rw [hpushed, Nat.mul_zero, Nat.zero_div, Int.natCast_zero, Int.mul_zero, Int.add_zero, Int16.ofInt_toInt]
  cases axis <;> rfl

/-- In a pair the mover comes first or second; either way it alone is pushed. -/
theorem separate_from_obstacle (coefficient : Fixed) (hoverlap : mover.box.overlaps obstacle.box = true)
    (hmass : mover.mass ≠ 0) (hmassless : obstacle.mass = 0) :
    (PushedOff obstacle mover (separate coefficient mover obstacle).1 ∧
      (separate coefficient mover obstacle).2.box = obstacle.box) ∧
    (PushedOff obstacle mover (separate coefficient obstacle mover).2 ∧
      (separate coefficient obstacle mover).1.box = obstacle.box) := by
  constructor
  · obtain ⟨length,ratioA,ratioB,direction,hlength,happortions,-,hneg,hseparate⟩ :=
      separate_eq_pushed coefficient rfl hoverlap fun h => hmass h.1
    have hnone : ratioB = 0 := happortions.obstacleB hmassless
    have hwhole : ratioA = wholeRatio := by simpa [hnone] using happortions.exact (.inr hmassless)
    obtain ⟨v,hpushed⟩ := mover.pushed_whole (contactAxis mover obstacle) (-direction) length coefficient
    obtain ⟨hsign,haway⟩ := heading_cases mover obstacle (contactAxis mover obstacle)
    rw [hseparate, hnone, hwhole, hpushed, hneg]
    refine ⟨⟨-heading mover obstacle (contactAxis mover obstacle),v,by omega,?_,by rw [hlength]⟩,
      box_pushed_zero ..⟩
    rwa [gap_comm mover, Int.neg_mul_neg]
  · obtain ⟨length,ratioA,ratioB,direction,hlength,happortions,htoInt,-,hseparate⟩ :=
      separate_eq_pushed coefficient (contactAxis_comm mover obstacle)
        ((overlaps_comm mover obstacle).trans hoverlap) fun h => hmass h.2
    have hnone : ratioA = 0 := happortions.obstacleA hmassless
    have hwhole : ratioB = wholeRatio := by simpa [hnone] using happortions.exact (.inl hmassless)
    obtain ⟨v,hpushed⟩ := mover.pushed_whole (contactAxis mover obstacle) direction length coefficient
    obtain ⟨hsign,haway⟩ := heading_cases obstacle mover (contactAxis mover obstacle)
    rw [hseparate, hnone, hwhole, hpushed, htoInt]
    refine ⟨⟨heading obstacle mover (contactAxis mover obstacle),v,hsign,haway,?_⟩,box_pushed_zero ..⟩
    rw [← overlap_comm mover, hlength]

/-- An interval that is pushed off another by the length of their intersection still meets it if one of
them begins and ends strictly inside the other. -/
private theorem meets_after_push {p f q g direction : Int} (hpf : p ≤ f) (hqg : q ≤ g) (hpg : p < g)
    (hqf : q < f) (hdirection : direction = 1 ∨ direction = -1)
    (haway : 0 ≤ direction * (p + f - (q + g))) :
    (p + direction * (min f g - max p q) < g ∧ q < f + direction * (min f g - max p q)) ↔
      (q < p ∧ f < g) ∨ (p < q ∧ g < f) := by
  rcases hdirection with rfl | rfl <;> omega

/-- Away from the ends of the coordinates, a push clears the obstacle unless one of the two lies inside the
other. -/
theorem overlaps_of_pushedOff (h : PushedOff obstacle mover mover') (hbox : obstacle'.box = obstacle.box)
    (hoverlap : mover.box.overlaps obstacle.box = true)
    (hlimits : ∀ axis, -32513 ≤ (mover.position axis).toInt ∧ (mover.position axis).toInt ≤ 32512) :
    mover'.box.overlaps obstacle'.box = true ↔
      Inside mover obstacle (contactAxis mover obstacle) ∨
        Inside obstacle mover (contactAxis mover obstacle) := by
  obtain ⟨direction,v,hdirection,haway,rfl⟩ := h
  generalize contactAxis mover obstacle = axis at haway ⊢
  obtain ⟨hnonneg,hle,-⟩ := overlap_bounds hoverlap axis
  have hwhere : (Int16.ofInt ((mover.position axis).toInt + direction * overlap mover obstacle axis)).toInt =
      (mover.position axis).toInt + direction * overlap mover obstacle axis := by
    have hlimit := hlimits axis
    apply Int16.toInt_ofInt_of_le <;> rcases hdirection with rfl | rfl <;> omega
  have hbefore := overlaps_iff.mp hoverlap
  have hcentres : gap obstacle mover axis = (mover.position axis).toInt + mover.far axis -
      ((obstacle.position axis).toInt + obstacle.far axis) := by
    simp only [gap, doubleCentre, far]
    omega
  rw [hcentres] at haway
  have hlength (b : Body) : (b.position axis).toInt ≤ b.far axis := by
    rw [far]
    omega
  have hmeets := meets_after_push (hlength mover) (hlength obstacle) (hbefore axis).1 (hbefore axis).2
    hdirection haway
  rw [Inside, Inside, ← hmeets, hbox, overlaps_iff]
  have hfar : (mover.position axis).toInt + direction * overlap mover obstacle axis +
      (mover.extent axis).toNat = mover.far axis + direction * overlap mover obstacle axis := by
    rw [far]
    omega
  constructor
  · intro hafter
    have hthis := hafter axis
    rwa [position_withMotion, far_withMotion, if_pos rfl, hwhere, hfar] at hthis
  · intro hthis other
    rw [position_withMotion, far_withMotion]
    split
    next hother =>
      subst hother
      rwa [hwhere, hfar]
    next => exact hbefore other

end Body

namespace Simulation

variable {s : Simulation} {i j : Nat}

/-- A body that overlaps an obstacle after it has moved, and meets nothing else, is clear of it at the end of
the frame, unless on the axis of contact one of the two begins and ends strictly inside the other. -/
theorem obstacle_is_cleared_unless_inside {mover obstacle : Body}
    (h : s.integrate.Meet i j mover obstacle) (hoverlap : mover.box.overlaps obstacle.box = true)
    (hmass : mover.mass ≠ 0) (hmassless : obstacle.mass = 0)
    (hlimits : ∀ axis, -32513 ≤ (mover.position axis).toInt ∧ (mover.position axis).toInt ≤ 32512) :
    ∃ mover' obstacle', s.step.1.bodies[i]? = some mover' ∧ s.step.1.bodies[j]? = some obstacle' ∧
      (mover'.box.overlaps obstacle'.box = true ↔
        mover.Inside obstacle (mover.contactAxis obstacle) ∨
          obstacle.Inside mover (mover.contactAxis obstacle)) := by
  obtain ⟨mover',obstacle',hi,hj,hseparate⟩ := h.collide hoverlap
  have hpushed := Body.separate_from_obstacle s.integrate.world.bounce hoverlap hmass hmassless
  refine ⟨mover',obstacle',hi,hj,?_⟩
  rcases hseparate with hfirst | hsecond
  · obtain ⟨hmover,hobstacle⟩ := hfirst ▸ hpushed.1
    exact Body.overlaps_of_pushedOff hmover hobstacle hoverlap hlimits
  · obtain ⟨hmover,hobstacle⟩ := hsecond ▸ hpushed.2
    exact Body.overlaps_of_pushedOff hmover hobstacle hoverlap hlimits

def ledgeGame (x : Int16) : Game where
  name := "ledge"
  entities := [⟨"crate", "box", 8, 8, x, 33⟩,⟨"ledge", "ground", 64, 8, 0, 40⟩]
  physics := some
    { bodies := [{ entity := "crate", mass := 2 }]
      pairs := [{ tagA := "box", tagB := "ground" }] }

def crateAt (x y : Int16) : Body := ⟨x, y, 0, 0, 8, 8, "box", 2, .one, .greatest, .greatest, true⟩

def ledge : Body := ⟨0, 40, 0, 0, 64, 8, "ground", 0, .one, .greatest, .greatest, true⟩

def onLedge (x : Int16) : Simulation :=
  ⟨(ledgeGame x).physics.getD {}, #[crateAt x 33,ledge]⟩

theorem meet_onLedge {x : Int16} (hstill : (onLedge x).integrate = onLedge x) :
    (onLedge x).integrate.Meet 0 1 (crateAt x 33) ledge := by
  rw [hstill]
  refine ⟨by decide,rfl,rfl,⟨_,rfl⟩,fun k z hz hk hk' => ?_⟩
  have hsize : k < 2 := (Array.getElem?_eq_some_iff.mp hz).1
  omega

/-- Over the middle of the ledge the crate is lifted out of it. -/
theorem crate_is_cleared_in_the_middle :
    ofGame (ledgeGame 28) = .ok (onLedge 28) ∧
      (onLedge 28).integrate.Meet 0 1 (crateAt 28 33) ledge ∧
      (crateAt 28 33).box.overlaps ledge.box = true ∧ (crateAt 28 33).mass ≠ 0 ∧ ledge.mass = 0 ∧
      ∃ mover' obstacle', (onLedge 28).step.1.bodies[0]? = some mover' ∧
        (onLedge 28).step.1.bodies[1]? = some obstacle' ∧
        (mover'.box.overlaps obstacle'.box = true ↔
          (crateAt 28 33).Inside ledge ((crateAt 28 33).contactAxis ledge) ∨
            ledge.Inside (crateAt 28 33) ((crateAt 28 33).contactAxis ledge)) := by
  have hmeet : (onLedge 28).integrate.Meet 0 1 (crateAt 28 33) ledge := meet_onLedge (by decide +kernel)
  refine ⟨rfl,hmeet,by decide,by decide,by decide,?_⟩
  refine obstacle_is_cleared_unless_inside hmeet (by decide) (by decide) (by decide) ?_
  rintro (_ | _) <;> decide

/-- Towards an end of the ledge the crate is pushed along it, by no more than its own width, and stays
inside. -/
theorem crate_stays_in_ledge :
    ofGame (ledgeGame 50) = .ok (onLedge 50) ∧
      (onLedge 50).integrate.Meet 0 1 (crateAt 50 33) ledge ∧
      (crateAt 50 33).box.overlaps ledge.box = true ∧ (crateAt 50 33).mass ≠ 0 ∧ ledge.mass = 0 ∧
      (onLedge 50).step.1.bodies = #[crateAt 58 33,ledge] ∧
      (crateAt 58 33).box.overlaps ledge.box = true :=
  ⟨rfl,meet_onLedge (by decide +kernel),by decide,by decide,by decide,by decide +kernel,by decide⟩

end Simulation

end Cartridge.Physics
