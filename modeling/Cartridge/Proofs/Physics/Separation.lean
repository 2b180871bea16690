import Mathlib.Tactic.Common
import Cartridge.Physics.Body

/-!
Where two overlapping bodies go when they are pushed apart. Both parts of the push are rounded down on
their own, so a pair of bodies with mass may be left up to two pixels short of clearing the overlap; a body
against an obstacle clears it exactly.
-/
namespace Cartridge.Physics

/-- Two parts of a whole, for bodies of two masses. The lighter body has the larger part and an obstacle
none, and no more than the slack is lost. -/
structure Apportions (whole slack : Nat) (massA massB : UInt8) (partA partB : Nat) : Prop where
  most : partA + partB ≤ whole
  least : whole ≤ partA + partB + slack
  exact : massA = 0 ∨ massB = 0 → partA + partB = whole
  obstacleA : massA = 0 → partA = 0
  obstacleB : massB = 0 → partB = 0
  lighterA : massA ≠ 0 → massA ≤ massB → partB ≤ partA
  lighterB : massB ≠ 0 → massB ≤ massA → partA ≤ partB

/-- Two quotients by the same number, rounded down, lose less than one each. -/
private theorem div_add_div_bounds (x y n : Nat) (hn : 0 < n) :
    x / n + y / n ≤ (x + y) / n ∧ (x + y) / n ≤ x / n + y / n + 1 := by
  rw [Nat.add_div hn]
  split <;> omega

private theorem toNat_pos {m : UInt8} (h : m ≠ 0) : 0 < m.toNat :=
  Nat.pos_of_ne_zero fun hzero => h (UInt8.toNat_inj.mp hzero)

private theorem weighted_ratios (a b : UInt8) (ha : a ≠ 0) (hb : b ≠ 0) :
    Apportions wholeRatio 1 a b (b.toNat * wholeRatio / (a.toNat + b.toNat))
      (a.toNat * wholeRatio / (a.toNat + b.toNat)) := by
  have hpos : 0 < a.toNat + b.toNat := Nat.add_pos_left (toNat_pos ha) _
  have htotal : (b.toNat * wholeRatio + a.toNat * wholeRatio) / (a.toNat + b.toNat) = wholeRatio := by
    rw [← Nat.add_mul, Nat.add_comm b.toNat]
    exact Nat.mul_div_cancel_left _ hpos
  have hsum := div_add_div_bounds (b.toNat * wholeRatio) (a.toNat * wholeRatio) _ hpos
  rw [htotal] at hsum
  have hmono {x y : UInt8} (h : x ≤ y) : x.toNat * wholeRatio / (a.toNat + b.toNat) ≤
      y.toNat * wholeRatio / (a.toNat + b.toNat) :=
    Nat.div_le_div_right (Nat.mul_le_mul_right _ (UInt8.le_iff_toNat_le.mp h))
  exact
    { most := hsum.1
      least := hsum.2
      exact := fun h => (h.elim ha hb).elim
      obstacleA := fun h => absurd h ha
      obstacleB := fun h => absurd h hb
      lighterA := fun _ h => hmono h
      lighterB := fun _ h => hmono h }

/-- The ratios divide the whole ratio, and lose at most one part of it. -/
theorem separationRatios_apportions {a b : UInt8} (h : ¬(a = 0 ∧ b = 0)) :
    ∃ ratioA ratioB, separationRatios a b = some (ratioA,ratioB) ∧
      Apportions wholeRatio 1 a b ratioA ratioB := by
  rw [separationRatios]
  by_cases ha : a = 0
  · have hb : b ≠ 0 := fun hb => h ⟨ha,hb⟩
    refine ⟨0,wholeRatio,by rw [if_pos ha, if_neg hb],?_⟩
    constructor <;> simp [ha, hb]
  · by_cases hb : b = 0
    · refine ⟨wholeRatio,0,by rw [if_neg ha, if_pos hb],?_⟩
      constructor <;> simp [ha, hb]
    · exact ⟨_,_,by rw [if_neg ha, if_neg hb],weighted_ratios a b ha hb⟩

theorem apportions_of_separationRatios {a b : UInt8} {ratioA ratioB : Nat}
    (h : separationRatios a b = some (ratioA,ratioB)) : Apportions wholeRatio 1 a b ratioA ratioB := by
  have hmass : ¬(a = 0 ∧ b = 0) := by
    rintro ⟨rfl,rfl⟩
    cases h
  obtain ⟨ratioA',ratioB',hratios,happortions⟩ := separationRatios_apportions hmass
  obtain ⟨rfl,rfl⟩ := Prod.mk.inj (Option.some.inj (h.symm.trans hratios))
  exact happortions

/-- Shares of a length that is not above the whole ratio lose one pixel more than the ratios do. -/
theorem Apportions.scale {massA massB : UInt8} {ratioA ratioB : Nat}
    (h : Apportions wholeRatio 1 massA massB ratioA ratioB) {length : Nat} (hlength : length ≤ wholeRatio) :
    Apportions length 2 massA massB (length * ratioA / 256) (length * ratioB / 256) := by
  have hsum := div_add_div_bounds (length * ratioA) (length * ratioB) 256 (by decide)
  rw [← Nat.mul_add] at hsum
  have hmost : length * (ratioA + ratioB) / 256 ≤ length :=
    Nat.div_le_of_le_mul (by rw [Nat.mul_comm]; exact Nat.mul_le_mul_right _ h.most)
  have hleast : length ≤ length * (ratioA + ratioB) / 256 + 1 := by
    have hratios : length * wholeRatio ≤ length * (ratioA + ratioB) + length := by
      rw [← Nat.mul_succ]
      exact Nat.mul_le_mul_left _ h.least
    simp only [wholeRatio] at hratios hlength
    omega
  have hmono {x y : Nat} (hxy : x ≤ y) : length * x / 256 ≤ length * y / 256 :=
    Nat.div_le_div_right (Nat.mul_le_mul_left _ hxy)
  exact
    { most := Nat.le_trans hsum.1 hmost
      least := by omega
      exact := by
        rintro (hzero | hzero)
        · have hall := h.exact (.inl hzero)
          rw [h.obstacleA hzero, Nat.zero_add] at hall
          simp [h.obstacleA hzero, hall, wholeRatio]
        · have hall := h.exact (.inr hzero)
          rw [h.obstacleB hzero, Nat.add_zero] at hall
          simp [h.obstacleB hzero, hall, wholeRatio]
      obstacleA := fun hzero => by simp [h.obstacleA hzero]
      obstacleB := fun hzero => by simp [h.obstacleB hzero]
      lighterA := fun hmass hle => hmono (h.lighterA hmass hle)
      lighterB := fun hmass hle => hmono (h.lighterB hmass hle) }

namespace Body

def heading (a b : Body) (axis : Axis) : Int := if 0 ≤ gap a b axis then 1 else -1

/-- Bodies overlap if on each axis both begin before the other ends. -/
theorem overlaps_iff {a b : Body} :
    a.box.overlaps b.box = true ↔
      ∀ axis, (a.position axis).toInt < b.far axis ∧ (b.position axis).toInt < a.far axis := by
  simp only [Box.overlaps, Bool.and_eq_true, decide_eq_true_iff]
  constructor
  · rintro ⟨⟨⟨hax,hbx⟩,hay⟩,hby⟩ (_ | _)
    · exact ⟨hax,hbx⟩
    · exact ⟨hay,hby⟩
  · intro h
    exact ⟨⟨⟨(h .x).1,(h .x).2⟩,(h .y).1⟩,(h .y).2⟩

theorem gap_comm (a b : Body) (axis : Axis) : gap b a axis = -gap a b axis := by
  simp only [gap]
  omega

theorem contactAxis_comm (a b : Body) : contactAxis b a = contactAxis a b := by
  simp only [contactAxis, gap_comm a b, Int.natAbs_neg]

theorem overlap_comm (a b : Body) (axis : Axis) : overlap b a axis = overlap a b axis := by
  simp only [overlap]
  omega

theorem overlaps_comm (a b : Body) : b.box.overlaps a.box = a.box.overlaps b.box := by
  rw [Bool.eq_iff_iff, overlaps_iff, overlaps_iff]
  simp only [and_comm]

/-- The intersection of overlapping bodies has a length, no more than either extent. It has no pixel
where one of them has no extent. -/
theorem overlap_bounds {a b : Body} (h : a.box.overlaps b.box = true) (axis : Axis) :
    0 ≤ overlap a b axis ∧ overlap a b axis ≤ 255 ∧
      (0 < overlap a b axis ↔ a.extent axis ≠ 0 ∧ b.extent axis ≠ 0) := by
  obtain ⟨ha,hb⟩ := overlaps_iff.mp h axis
  have hzero (e : UInt8) : e ≠ 0 ↔ 0 < e.toNat := by
    rw [Nat.pos_iff_ne_zero, ne_eq, ne_eq, ← UInt8.toNat_inj]
    rfl
  have hextent := (a.extent axis).toNat_lt
  rw [hzero, hzero]
  simp only [overlap, far] at *
  omega

/-- A push by a ratio is a push by so many pixels. -/
theorem pushed_eq (b : Body) (axis : Axis) (direction : Int16) (length : Nat) (coefficient : Fixed)
    (ratio : Nat) :
    ∃ v, b.pushed axis direction length coefficient ratio =
        b.withMotion axis
          (.ofInt ((b.position axis).toInt + direction.toInt * (length * ratio / 256 : Nat))) v ∧
      (v ≠ b.velocity axis → (b.velocity axis).toInt.sign = -direction.toInt) := by
  refine ⟨if (b.velocity axis).toInt.sign = -direction.toInt then bounce (b.velocity axis) coefficient ratio
    else b.velocity axis,?_,fun hchanged => ?_⟩
  · rw [pushed, share, Int16.ofInt_add, Int16.ofInt_mul, Int16.ofInt_toInt, Int16.ofInt_toInt]
    rfl
  · by_contra hsign
    rw [if_neg hsign] at hchanged
    exact hchanged rfl

/-- Both bodies are pushed along the axis of contact, in opposite directions. -/
theorem separate_eq_pushed (coefficient : Fixed) {a b : Body} {axis : Axis} (haxis : contactAxis a b = axis)
    (hoverlap : a.box.overlaps b.box = true) (hmass : ¬(a.mass = 0 ∧ b.mass = 0)) :
    ∃ (length ratioA ratioB : Nat) (direction : Int16), overlap a b axis = length ∧
      Apportions wholeRatio 1 a.mass b.mass ratioA ratioB ∧
      direction.toInt = heading a b axis ∧ (-direction).toInt = -heading a b axis ∧
      separate coefficient a b = (a.pushed axis (-direction) length coefficient ratioA,
        b.pushed axis direction length coefficient ratioB) := by
  obtain ⟨ratioA,ratioB,hratios,happortions⟩ := separationRatios_apportions hmass
  obtain ⟨length,hlength⟩ := Int.eq_ofNat_of_zero_le (overlap_bounds hoverlap axis).1
  refine ⟨length,ratioA,ratioB,if 0 ≤ gap a b axis then 1 else -1,hlength,happortions,?_,?_,?_⟩
  · rw [heading]
    split <;> rfl
  · rw [heading]
    split <;> rfl
  · rw [separate, hratios]
    dsimp only
    rw [haxis, hlength]

/-- Two overlapping bodies, at least one of which has a mass, are pushed apart on the axis of contact
alone, each away from the other. What both move by together is the length of their intersection, but for two
pixels at most if both have mass. Only a velocity towards the other body changes. -/
theorem separate_apportions_overlap (coefficient : Fixed) {a b : Body} {axis : Axis}
    (haxis : contactAxis a b = axis) (hoverlap : a.box.overlaps b.box = true)
    (hmass : ¬(a.mass = 0 ∧ b.mass = 0)) :
    ∃ (length moveA moveB : Nat) (va vb : Int16),
      overlap a b axis = length ∧ (0 < length ↔ a.extent axis ≠ 0 ∧ b.extent axis ≠ 0) ∧
      Apportions length 2 a.mass b.mass moveA moveB ∧
      separate coefficient a b =
        (a.withMotion axis (.ofInt ((a.position axis).toInt - heading a b axis * moveA)) va,
          b.withMotion axis (.ofInt ((b.position axis).toInt + heading a b axis * moveB)) vb) ∧
      (va ≠ a.velocity axis → (a.velocity axis).toInt.sign = heading a b axis) ∧
      (vb ≠ b.velocity axis → (b.velocity axis).toInt.sign = -heading a b axis) := by
  obtain ⟨length,ratioA,ratioB,direction,hlength,happortions,htoInt,hneg,hseparate⟩ :=
    separate_eq_pushed coefficient haxis hoverlap hmass
  obtain ⟨-,hle,hpos⟩ := overlap_bounds hoverlap axis
  obtain ⟨va,hpushedA,hva⟩ := a.pushed_eq axis (-direction) length coefficient ratioA
  obtain ⟨vb,hpushedB,hvb⟩ := b.pushed_eq axis direction length coefficient ratioB
  rw [hneg, Int.neg_mul, ← Int.sub_eq_add_neg] at hpushedA
  rw [hneg, Int.neg_neg] at hva
  rw [htoInt] at hpushedB hvb
  rw [hlength] at hle hpos
  refine ⟨length,_,_,va,vb,hlength,by exact_mod_cast hpos,happortions.scale ?_,?_,hva,hvb⟩
  · simp only [wholeRatio]
    omega
  · rw [hseparate, hpushedA, hpushedB]

def crate (x : Int16) (mass : UInt8) : Body :=
  ⟨x, 0, 0, 0, 8, 8, "crate", mass, .one, .greatest, .greatest, true⟩

/-- A light crate that overlaps a heavy one. -/
theorem crates_apportion_overlap :
    contactAxis (crate 0 1) (crate 4 3) = .x ∧ (crate 0 1).box.overlaps (crate 4 3).box = true ∧
      ¬((crate 0 1).mass = 0 ∧ (crate 4 3).mass = 0) ∧
      ∃ (length moveA moveB : Nat) (va vb : Int16),
        overlap (crate 0 1) (crate 4 3) .x = length ∧
        (0 < length ↔ (crate 0 1).extent .x ≠ 0 ∧ (crate 4 3).extent .x ≠ 0) ∧
        Apportions length 2 1 3 moveA moveB ∧
        separate .one (crate 0 1) (crate 4 3) =
          ((crate 0 1).withMotion .x (.ofInt (0 - heading (crate 0 1) (crate 4 3) .x * moveA)) va,
            (crate 4 3).withMotion .x (.ofInt (4 + heading (crate 0 1) (crate 4 3) .x * moveB)) vb) ∧
        (va ≠ (crate 0 1).velocity .x →
          ((crate 0 1).velocity .x).toInt.sign = heading (crate 0 1) (crate 4 3) .x) ∧
        (vb ≠ (crate 4 3).velocity .x →
          ((crate 4 3).velocity .x).toInt.sign = -heading (crate 0 1) (crate 4 3) .x) :=
  ⟨by decide,by decide,by decide,separate_apportions_overlap .one (by decide) (by decide) (by decide)⟩

end Body

end Cartridge.Physics
