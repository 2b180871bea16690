import Cartridge.Proofs.Physics.Play
import Cartridge.Proofs.Physics.Separation

/-!
The arithmetic of bodies on a machine that checks it. Each operation has an integer type, and stops with a trap
where its result is no value of that type, where it divides by zero, and where it clamps to an empty range. Only
cutting a number to sixteen bits, and adding gravity to a velocity or a step to a position, wrap around, as they
are meant to. While no limit of a speed is negative and only overlapping boxes are pushed apart, no operation
stops, and the results are those of the unchecked arithmetic.
-/
namespace Cartridge.Physics

/-- The integer types a frame computes with. -/
inductive Width where
  | i16
  | u16
  | i32
  deriving DecidableEq, Repr

def Width.least : Width → Int
  | .i16 => -32768
  | .u16 => 0
  | .i32 => -2147483648

def Width.greatest : Width → Int
  | .i16 => 32767
  | .u16 => 65535
  | .i32 => 2147483647

/-- Why a checked machine stops. -/
inductive Trap where
  | overflow (width : Width) (value : Int)
  | divisionByZero
  | emptyRange (low high : Int)
  deriving DecidableEq, Repr

def Width.fit (w : Width) (x : Int) : Except Trap Int :=
  if w.least ≤ x ∧ x ≤ w.greatest then .ok x else .error (.overflow w x)

def quotient (x y : Int) : Except Trap Int := if y = 0 then .error .divisionByZero else .ok (x / y)

namespace Checked

def separationRatios (a b : UInt8) : Except Trap (Option (Int × Int)) :=
  if a = 0 then return if b = 0 then none else some (0, wholeRatio)
  else if b = 0 then return some (wholeRatio, 0)
  else do
    let total ← Width.u16.fit (a.toNat + b.toNat)
    let ratioA ← quotient (← Width.u16.fit (b.toNat * 256)) total
    let ratioB ← quotient (← Width.u16.fit (a.toNat * 256)) total
    return some (ratioA, ratioB)

def bounce (v : Int16) (coefficient : Fixed) (ratio : Int) : Except Trap Int16 := do
  let doubled ← Width.i32.fit (ratio * 2)
  let product ← Width.i32.fit (v.toInt * coefficient.raw.toInt)
  let scaled ← Width.i32.fit (product / 256 * min doubled wholeRatio)
  let turned ← Width.i32.fit (-(scaled / 256))
  return .ofInt turned

def scale (a : Fixed) (v : Int16) : Except Trap Int16 := do
  let product ← Width.i32.fit (v.toInt * a.raw.toInt)
  return .ofInt (product / 256)

/-- A velocity within its limit. The negative limit is a number of its own, and the range must not be empty. -/
def clampSpeed (limit : Fixed) (v : Int16) : Except Trap Int16 := do
  let low ← Width.i16.fit (-limit.raw.toInt)
  if limit.raw.toInt < low then .error (.emptyRange low limit.raw.toInt)
  else if v.toInt < low then return .ofInt low
  else if limit.raw.toInt < v.toInt then return limit.raw
  else return v

def advance (b : Body) (gravity : Fixed) : Except Trap Body := do
  let vx ← clampSpeed b.maxVx (← scale b.friction b.vx)
  let vy ← clampSpeed b.maxVy (b.vy + gravity.raw)
  return { b with vx, vy, x := b.x + (vx >>> 8), y := b.y + (vy >>> 8) }

def far (b : Body) (axis : Axis) : Except Trap Int :=
  Width.i32.fit ((b.position axis).toInt + (b.extent axis).toNat)

/-- All four sums are checked, also where an earlier comparison decides. -/
def overlaps (a b : Body) : Except Trap Bool := do
  let farX ← far b .x
  let farX' ← far a .x
  let farY ← far b .y
  let farY' ← far a .y
  return a.x.toInt < farX && b.x.toInt < farX' && a.y.toInt < farY && b.y.toInt < farY'

def doubleCentre (b : Body) (axis : Axis) : Except Trap Int := do
  let twice ← Width.i32.fit ((b.position axis).toInt * 2)
  Width.i32.fit (twice + (b.extent axis).toNat)

def gap (a b : Body) (axis : Axis) : Except Trap Int := do
  let centre ← doubleCentre b axis
  let centre' ← doubleCentre a axis
  Width.i32.fit (centre - centre')

def contactAxis (a b : Body) : Except Trap Axis := do
  let x ← Width.i32.fit (← gap a b .x).natAbs
  let y ← Width.i32.fit (← gap a b .y).natAbs
  return if y < x then .x else .y

def overlap (a b : Body) (axis : Axis) : Except Trap Int := do
  let farA ← far a axis
  let farB ← far b axis
  Width.i32.fit (min farA farB - max (a.position axis).toInt (b.position axis).toInt)

def share (overlap ratio : Int) : Except Trap Int16 := do
  let product ← Width.i32.fit (overlap * ratio)
  return .ofInt (product / 256)

def rebound (v : Int16) (direction : Int) (coefficient : Fixed) (ratio : Int) : Except Trap Int16 :=
  if v.toInt.sign = direction then bounce v coefficient ratio else return v

def separate (coefficient : Fixed) (a b : Body) : Except Trap (Body × Body) := do
  match ← separationRatios a.mass b.mass with
  | none => return (a, b)
  | some (ratioA, ratioB) =>
    let axis ← contactAxis a b
    let overlap ← overlap a b axis
    let direction : Int := if 0 ≤ (← gap a b axis) then 1 else -1
    let moveA ← share overlap ratioA
    let moveB ← share overlap ratioB
    let stepA ← Width.i16.fit (direction * moveA.toInt)
    let va ← rebound (a.velocity axis) direction coefficient ratioA
    let stepB ← Width.i16.fit (direction * moveB.toInt)
    let vb ← rebound (b.velocity axis) (← Width.i16.fit (-direction)) coefficient ratioB
    return (a.withMotion axis (a.position axis - .ofInt stepA) va,
      b.withMotion axis (b.position axis + .ofInt stepB) vb)

end Checked

/-! Each operation by its bounds. -/

section bounds

variable {x y : Int}

theorem fit_i32 (h : x.natAbs < 2147483648) : Width.i32.fit x = .ok x :=
  if_pos (by simp only [Width.least, Width.greatest]; omega)

theorem fit_i16 (h : x.natAbs < 32768) : Width.i16.fit x = .ok x :=
  if_pos (by simp only [Width.least, Width.greatest]; omega)

theorem fit_u16 (hx : 0 ≤ x) (h : x < 65536) : Width.u16.fit x = .ok x :=
  if_pos (by simp only [Width.least, Width.greatest]; omega)

theorem natAbs_toInt (v : Int16) : v.toInt.natAbs ≤ 32768 := by
  have hle := v.le_toInt
  have hlt := v.toInt_lt
  omega

theorem natAbs_mul_le {m n : Nat} (hx : x.natAbs ≤ m) (hy : y.natAbs ≤ n) : (x * y).natAbs ≤ m * n := by
  rw [Int.natAbs_mul]
  exact Nat.mul_le_mul hx hy

/-- The product of two 16-bit numbers has 31 bits. -/
theorem natAbs_product (v w : Int16) : (v.toInt * w.toInt).natAbs ≤ 1073741824 :=
  natAbs_mul_le (natAbs_toInt v) (natAbs_toInt w)

end bounds

namespace Checked

theorem bounce_eq (v : Int16) (coefficient : Fixed) {ratio : Nat} (h : ratio ≤ wholeRatio) :
    bounce v coefficient ratio = .ok (Physics.bounce v coefficient ratio) := by
  have hmin : (min (ratio * 2) wholeRatio : Nat) = min ((ratio : Int) * 2) (wholeRatio : Int) := by
    simp only [wholeRatio]
    omega
  simp only [wholeRatio] at h
  have hproduct := natAbs_product v coefficient.raw
  have hscaled : (v.toInt * coefficient.raw.toInt / 256 * (min (ratio * 2) wholeRatio : Nat)).natAbs ≤
      4194304 * 256 := by
    refine natAbs_mul_le (by omega) ?_
    simp only [wholeRatio]
    omega
  refine bind_of_ok (fit_i32 (by omega)) (bind_of_ok (fit_i32 (by omega)) ?_)
  rw [← hmin]
  exact bind_of_ok (fit_i32 (by omega)) (bind_of_ok (fit_i32 (by omega)) rfl)

theorem scale_eq (a : Fixed) (v : Int16) : scale a v = .ok (a.scale v) := by
  have hproduct := natAbs_product v a.raw
  exact bind_of_ok (fit_i32 (by omega)) rfl

theorem separationRatios_eq (a b : UInt8) :
    separationRatios a b =
      .ok ((Physics.separationRatios a b).map fun r => ((r.1 : Int),(r.2 : Int))) := by
  rw [separationRatios, Physics.separationRatios]
  by_cases ha : a = 0
  · rw [if_pos ha, if_pos ha]
    split <;> rfl
  rw [if_neg ha, if_neg ha]
  by_cases hb : b = 0
  · rw [if_pos hb, if_pos hb]
    rfl
  rw [if_neg hb, if_neg hb]
  have hlt := a.toNat_lt
  have hlt' := b.toNat_lt
  have hpos : a.toNat ≠ 0 := fun hzero => ha (UInt8.toNat_inj.mp hzero)
  have hquotient (x : Int) : quotient x (a.toNat + b.toNat) = .ok (x / (a.toNat + b.toNat)) :=
    if_neg (by omega)
  exact bind_of_ok (fit_u16 (by omega) (by omega)) (bind_of_ok (fit_u16 (by omega) (by omega))
    (bind_of_ok (hquotient _) (bind_of_ok (fit_u16 (by omega) (by omega)) (bind_of_ok (hquotient _) rfl))))

/-- The negative limit exists and the range is not empty. -/
theorem clampSpeed_eq {limit : Fixed} (h : 0 ≤ limit.raw) (v : Int16) :
    clampSpeed limit v = .ok (clamp (-limit.raw) limit.raw v) := by
  have hle := natAbs_toInt limit.raw
  have hlt : limit.raw.toInt < 32768 := limit.raw.toInt_lt
  have hge := toInt_nonneg h
  have hneg := toInt_neg_of_nonneg h
  refine bind_of_ok (fit_i16 (by omega)) ?_
  rw [if_neg (by omega), clamp]
  simp only [Int16.lt_iff_toInt_lt, hneg]
  split
  · rw [← hneg, Int16.ofInt_toInt]
    rfl
  · split <;> rfl

theorem advance_eq {b : Body} (h : b.Limited) (gravity : Fixed) : advance b gravity = .ok (b.advance gravity) :=
  bind_of_ok (scale_eq _ _) (bind_of_ok (clampSpeed_eq h.1 _) (bind_of_ok (clampSpeed_eq h.2 _) rfl))

theorem natAbs_position (b : Body) (axis : Axis) :
    (b.position axis).toInt.natAbs ≤ 32768 ∧ (b.extent axis).toNat < 256 :=
  ⟨natAbs_toInt _,(b.extent axis).toNat_lt⟩

theorem far_eq (b : Body) (axis : Axis) : far b axis = .ok (b.far axis) := by
  have hbounds := natAbs_position b axis
  exact fit_i32 (by omega)

theorem overlaps_eq (a b : Body) : overlaps a b = .ok (a.box.overlaps b.box) :=
  bind_of_ok (far_eq ..) (bind_of_ok (far_eq ..) (bind_of_ok (far_eq ..) (bind_of_ok (far_eq ..) rfl)))

theorem natAbs_doubleCentre (b : Body) (axis : Axis) : (b.doubleCentre axis).natAbs ≤ 65791 := by
  have hbounds := natAbs_position b axis
  rw [Body.doubleCentre]
  omega

theorem doubleCentre_eq (b : Body) (axis : Axis) : doubleCentre b axis = .ok (b.doubleCentre axis) := by
  have hbounds := natAbs_position b axis
  exact bind_of_ok (fit_i32 (by omega)) (fit_i32 (by omega))

theorem natAbs_gap (a b : Body) (axis : Axis) : (a.gap b axis).natAbs ≤ 131582 := by
  have ha := natAbs_doubleCentre a axis
  have hb := natAbs_doubleCentre b axis
  rw [Body.gap]
  omega

theorem gap_eq (a b : Body) (axis : Axis) : gap a b axis = .ok (a.gap b axis) := by
  have hbounds : (b.doubleCentre axis - a.doubleCentre axis).natAbs ≤ 131582 := natAbs_gap a b axis
  exact bind_of_ok (doubleCentre_eq ..) (bind_of_ok (doubleCentre_eq ..) (fit_i32 (by omega)))

theorem contactAxis_eq (a b : Body) : contactAxis a b = .ok (a.contactAxis b) := by
  have hx := natAbs_gap a b .x
  have hy := natAbs_gap a b .y
  refine bind_of_ok (gap_eq ..) (bind_of_ok (fit_i32 (by omega)) (bind_of_ok (gap_eq ..)
    (bind_of_ok (fit_i32 (by omega)) ?_)))
  rw [Body.contactAxis]
  simp only [Int.ofNat_lt]
  rfl

theorem overlap_eq (a b : Body) (axis : Axis) : overlap a b axis = .ok (a.overlap b axis) := by
  have ha := natAbs_position a axis
  have hb := natAbs_position b axis
  refine bind_of_ok (far_eq ..) (bind_of_ok (far_eq ..) (fit_i32 ?_))
  rw [Body.far, Body.far]
  omega

/-- A share of a short intersection by a part of the whole ratio is no more than the intersection. -/
theorem share_eq {length ratio : Nat} (hlength : length ≤ 255) (hratio : ratio ≤ wholeRatio) :
    share length ratio = .ok (Body.share length ratio) ∧ (Body.share length ratio).toInt.natAbs ≤ 255 := by
  have hproduct : length * ratio ≤ 255 * 256 := Nat.mul_le_mul hlength hratio
  have hproduct' : ((length : Int) * ratio).natAbs ≤ 65280 := by
    rw [← Int.natCast_mul]
    exact hproduct
  refine ⟨bind_of_ok (fit_i32 (by omega)) rfl,?_⟩
  rw [Body.share, Int16.toInt_ofInt_of_le] <;> omega

theorem rebound_eq (v : Int16) (direction : Int) (coefficient : Fixed) {ratio : Nat}
    (h : ratio ≤ wholeRatio) :
    rebound v direction coefficient ratio =
      .ok (if v.toInt.sign = direction then Physics.bounce v coefficient ratio else v) := by
  rw [rebound]
  split
  · exact bounce_eq v coefficient h
  · rfl

/-- The direction of a push, as a number and as a step. -/
private theorem turn_cases (ahead : Prop) [Decidable ahead] :
    ∃ turn : Int16, (if ahead then 1 else -1) = turn ∧ (if ahead then (1 : Int) else -1) = turn.toInt ∧
      (-turn).toInt = -turn.toInt ∧ turn.toInt.natAbs = 1 := by
  by_cases h : ahead
  · exact ⟨1,if_pos h,if_pos h,by decide,by decide⟩
  · exact ⟨-1,if_neg h,if_neg h,by decide,by decide⟩

/-- Boxes that overlap share so little that no step of the push leaves its type. -/
theorem separate_eq (coefficient : Fixed) {a b : Body} (hoverlap : a.box.overlaps b.box = true) :
    separate coefficient a b = .ok (Body.separate coefficient a b) := by
  refine bind_of_ok (separationRatios_eq ..) ?_
  rcases hratios : Physics.separationRatios a.mass b.mass with _ | ⟨ratioA,ratioB⟩
  · rw [Body.separate, hratios]
    rfl
  have hmost := (apportions_of_separationRatios hratios).most
  have hA : ratioA ≤ wholeRatio := Nat.le_trans (Nat.le_add_right ..) hmost
  have hB : ratioB ≤ wholeRatio := Nat.le_trans (Nat.le_add_left ..) hmost
  obtain ⟨hnonneg,hle,-⟩ := Body.overlap_bounds hoverlap (a.contactAxis b)
  obtain ⟨length,hlength⟩ := Int.eq_ofNat_of_zero_le hnonneg
  rw [hlength] at hle
  obtain ⟨hshareA,hmoveA⟩ := share_eq (Int.ofNat_le.mp hle) hA
  obtain ⟨hshareB,hmoveB⟩ := share_eq (Int.ofNat_le.mp hle) hB
  obtain ⟨turn,hturn,hdirection,hneg,hone⟩ := turn_cases (0 ≤ a.gap b (a.contactAxis b))
  rw [Body.separate, hratios]
  refine bind_of_ok (contactAxis_eq ..) (bind_of_ok ((overlap_eq ..).trans (congrArg _ hlength))
    (bind_of_ok (gap_eq ..) (bind_of_ok hshareA (bind_of_ok hshareB ?_))))
  dsimp only
  rw [hlength, hturn, hdirection]
  have hstep {move : Int16} (h : move.toInt.natAbs ≤ 255) : (turn.toInt * move.toInt).natAbs < 32768 := by
    rw [Int.natAbs_mul, hone]
    omega
  refine bind_of_ok (fit_i16 (hstep hmoveA)) (bind_of_ok (rebound_eq _ _ _ hA) (bind_of_ok
    (fit_i16 (hstep hmoveB)) (bind_of_ok (fit_i16 (by omega)) (bind_of_ok (rebound_eq _ _ _ hB) ?_))))
  have hforth (p move : Int16) : p + .ofInt (turn.toInt * move.toInt) = p + turn * move := by
    rw [Int16.ofInt_mul, Int16.ofInt_toInt, Int16.ofInt_toInt]
  have hback (p move : Int16) : p - .ofInt (turn.toInt * move.toInt) = p + -turn * move := by
    rw [Int16.ofInt_mul, Int16.ofInt_toInt, Int16.ofInt_toInt, Int16.neg_mul, Int16.sub_eq_add_neg]
  rw [hforth, hback, Body.pushed, Body.pushed, hneg, Int.neg_neg]
  rfl

end Checked

end Cartridge.Physics
