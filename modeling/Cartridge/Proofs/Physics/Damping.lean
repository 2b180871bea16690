import Cartridge.Proofs.Physics.Run

/-!
Without gravity nothing speeds up. Friction and bounce multiply a velocity by a number between zero and one and
round the product down. That leads a negative velocity away from zero, but not past the velocity there was; so in
either direction no component of it grows, however often a body bounces in a frame.
-/
namespace Cartridge

def Fixed.IsFraction (a : Fixed) : Prop := 0 ≤ a.raw.toInt ∧ a.raw.toInt ≤ 256

namespace Physics

/-- Nothing pulls, and velocities are multiplied by numbers between zero and one. -/
structure World.Damps (w : World) : Prop where
  gravity : w.gravity = .zero
  zones : ∀ z ∈ w.zones, z.gravity = .zero
  bounce : w.bounce.IsFraction
  friction : w.friction.IsFraction
  bodies : ∀ d ∈ w.bodies, ∀ f, d.friction = some f → f.IsFraction

/-- A part of a number, rounded down, lies between zero and the number. -/
theorem mul_ediv_between {x f : Int} (hf : 0 ≤ f ∧ f ≤ 256) :
    min 0 x ≤ x * f / 256 ∧ x * f / 256 ≤ max 0 x := by
  rcases Int.le_total 0 x with hx | hx
  · have hlow : 0 ≤ x * f := Int.mul_nonneg hx hf.1
    have hhigh : x * f ≤ x * 256 := Int.mul_le_mul_of_nonneg_left hf.2 hx
    omega
  · have hlow : x * 256 ≤ x * f := Int.mul_le_mul_of_nonpos_left hx hf.2
    have hhigh : x * f ≤ 0 := Int.mul_nonpos_of_nonpos_of_nonneg hx hf.1
    omega

theorem natAbs_mul_ediv_le {x f : Int} (hf : 0 ≤ f ∧ f ≤ 256) : (x * f / 256).natAbs ≤ x.natAbs := by
  have hbetween := mul_ediv_between (x := x) hf
  omega

/-- So friction cuts nothing off. -/
theorem toInt_scale {f : Fixed} (hf : f.IsFraction) (v : Int16) :
    (f.scale v).toInt = v.toInt * f.raw.toInt / 256 := by
  have hbetween := mul_ediv_between (x := v.toInt) hf
  have hle := v.le_toInt
  have hlt := v.toInt_lt
  exact Int16.toInt_ofInt_of_le (by omega) (by omega)

/-- A bounce does where it turns the least velocity around, and that stays what it is. -/
theorem natAbs_ofInt_le (x : Int) : (Int16.ofInt x).toInt.natAbs ≤ x.natAbs := by
  rw [Int16.toInt_ofInt]
  simp only [Int16.size, Int.bmod]
  omega

theorem natAbs_bounce_le {coefficient : Fixed} (hf : coefficient.IsFraction) (v : Int16) (ratio : Nat) :
    (bounce v coefficient ratio).toInt.natAbs ≤ v.toInt.natAbs := by
  have hratio : (0 : Int) ≤ (min (ratio * 2) wholeRatio : Nat) ∧
      ((min (ratio * 2) wholeRatio : Nat) : Int) ≤ 256 := by
    simp only [wholeRatio]
    omega
  calc (bounce v coefficient ratio).toInt.natAbs
      ≤ (v.toInt * coefficient.raw.toInt / 256 * (min (ratio * 2) wholeRatio : Nat) / 256).natAbs := by
        rw [bounce, ← Int.natAbs_neg (_ / 256)]
        exact natAbs_ofInt_le _
    _ ≤ (v.toInt * coefficient.raw.toInt / 256).natAbs := natAbs_mul_ediv_le hratio
    _ ≤ v.toInt.natAbs := natAbs_mul_ediv_le hf

theorem natAbs_clamp_le {limit : Int16} (h : 0 ≤ limit) (v : Int16) :
    (clamp (-limit) limit v).toInt.natAbs ≤ v.toInt.natAbs := by
  have hge := toInt_nonneg h
  rw [toInt_clamp h]
  omega

namespace Body

def NoFaster (b' b : Body) : Prop := ∀ axis, (b'.velocity axis).toInt.natAbs ≤ (b.velocity axis).toInt.natAbs

theorem NoFaster.refl (b : Body) : b.NoFaster b := fun _ => Nat.le_refl _

theorem NoFaster.trans {a b c : Body} (h : a.NoFaster b) (h' : b.NoFaster c) : a.NoFaster c :=
  fun axis => Nat.le_trans (h axis) (h' axis)

theorem noFaster_withMotion {b : Body} {axis : Axis} {v : Int16}
    (h : v.toInt.natAbs ≤ (b.velocity axis).toInt.natAbs) (position : Int16) :
    (b.withMotion axis position v).NoFaster b := by
  rintro (_ | _) <;> cases axis
  · exact h
  · exact Nat.le_refl _
  · exact Nat.le_refl _
  · exact h

theorem noFaster_pushed {coefficient : Fixed} (hf : coefficient.IsFraction) (b : Body) (axis : Axis)
    (direction : Int16) (length : Int) (ratio : Nat) :
    (b.pushed axis direction length coefficient ratio).NoFaster b := by
  refine noFaster_withMotion ?_ _
  split
  · exact natAbs_bounce_le hf _ ratio
  · exact Nat.le_refl _

theorem noFaster_separate {coefficient : Fixed} (hf : coefficient.IsFraction) (a b : Body) :
    (separate coefficient a b).1.NoFaster a ∧ (separate coefficient a b).2.NoFaster b := by
  rw [separate]
  split
  · exact ⟨.refl a,.refl b⟩
  · exact ⟨noFaster_pushed hf a _ _ _ _,noFaster_pushed hf b _ _ _ _⟩

theorem noFaster_advance {b : Body} (hlimited : b.Limited) (hf : b.friction.IsFraction) :
    (b.advance .zero).NoFaster b := by
  rintro (_ | _)
  · refine Nat.le_trans (natAbs_clamp_le hlimited.1 _) ?_
    rw [toInt_scale hf]
    exact natAbs_mul_ediv_le hf
  · have hstill : b.vy + Fixed.zero.raw = b.vy := Int16.add_zero b.vy
    change (clamp (-b.maxVy.raw) b.maxVy.raw (b.vy + Fixed.zero.raw)).toInt.natAbs ≤ b.vy.toInt.natAbs
    rw [hstill]
    exact natAbs_clamp_le hlimited.2 b.vy

end Body

theorem World.Damps.gravityAt {w : World} (h : w.Damps) (x y : Int16) : w.gravityAt x y = .zero := by
  rw [World.gravityAt]
  cases hzone : w.zones.find? fun z => z.contains x y with
  | none => exact h.gravity
  | some z => exact h.zones z (List.mem_of_find?_eq_some hzone)

namespace Simulation

variable {w : World} {s : Simulation} {bodies bodies' : Array Body} {coefficient : Fixed}

theorem isFraction_bodyOf (h : w.Damps) (i : Instance) : (bodyOf w i).friction.IsFraction := by
  change (((w.body? i.entity).bind BodyDef.friction).getD w.friction).IsFraction
  rcases hfriction : (w.body? i.entity).bind BodyDef.friction with _ | f
  · exact h.friction
  · obtain ⟨d,hd,hf⟩ := Option.bind_eq_some_iff.mp hfriction
    exact h.bodies d (List.mem_of_find?_eq_some hd) f hf

/-- Each body is on no axis faster than the one that had its slot before. -/
def NoneFaster (bodies' bodies : Array Body) : Prop :=
  ∀ (k : Nat) (b : Body), bodies[k]? = some b → ∃ b', bodies'[k]? = some b' ∧ b'.NoFaster b

theorem NoneFaster.trans {bodies'' : Array Body} (h : NoneFaster bodies'' bodies')
    (h' : NoneFaster bodies' bodies) : NoneFaster bodies'' bodies := by
  intro k b hb
  obtain ⟨b',hb',hslower⟩ := h' k b hb
  obtain ⟨b'',hb'',hslower'⟩ := h k b' hb'
  exact ⟨b'',hb'',hslower'.trans hslower⟩

theorem noneFaster_contest (hf : coefficient.IsFraction) (bodies : Array Body) (slots : Nat × Nat) :
    NoneFaster (contest coefficient bodies slots) bodies := by
  intro k b hb
  rcases contest_cases coefficient bodies slots with h | ⟨x,y,hx,hy,h⟩
  · rw [h]
    exact ⟨b,hb,.refl b⟩
  · obtain ⟨hfirst,hsecond⟩ := Body.noFaster_separate hf x y
    have hlt := (Array.getElem?_eq_some_iff.mp hb).1
    rw [contest_of_overlaps hx hy h]
    by_cases hk : slots.2 = k
    · subst hk
      obtain rfl : y = b := Option.some.inj (hy.symm.trans hb)
      exact ⟨_,Array.getElem?_setIfInBounds_self_of_lt (by rwa [Array.size_setIfInBounds]),hsecond⟩
    · rw [Array.getElem?_setIfInBounds_ne hk]
      by_cases hk' : slots.1 = k
      · subst hk'
        obtain rfl : x = b := Option.some.inj (hx.symm.trans hb)
        exact ⟨_,Array.getElem?_setIfInBounds_self_of_lt hlt,hfirst⟩
      · rw [Array.getElem?_setIfInBounds_ne hk']
        exact ⟨b,hb,.refl b⟩

/-- However many contests a body is in, it is no faster after them. -/
theorem noneFaster_contests (hf : coefficient.IsFraction) (slots : List (Nat × Nat)) (bodies : Array Body) :
    NoneFaster (slots.foldl (contest coefficient) bodies) bodies := by
  induction slots generalizing bodies with
  | nil => exact fun k b hb => ⟨b,hb,.refl b⟩
  | cons ab slots ih => exact (ih _).trans (noneFaster_contest hf bodies ab)

theorem noneFaster_integrate (hdamps : w.Damps) (hvalid : w.validate = .ok ()) (h : w.Governs s) :
    NoneFaster s.integrate.bodies s.bodies := by
  intro k b hb
  refine ⟨integrateBody s.world b,by rw [integrate, Array.getElem?_map, hb, Option.map_some],?_⟩
  have hmem : b ∈ s.bodies := Array.mem_iff_getElem?.mpr ⟨k,hb⟩
  rw [integrateBody]
  split
  · obtain ⟨i,hdrag⟩ := h.bodies b hmem
    rw [h.world, hdamps.gravityAt]
    refine Body.noFaster_advance (h.limited hvalid hmem) ?_
    rw [(Body.drag_eq_iff.mp hdrag).1]
    exact isFraction_bodyOf hdamps i
  · exact .refl b

/-- In a world without gravity, whose frictions and bounce lie between zero and one, no frame makes a body faster
on either axis, in whatever state the bodies are and whatever they run into. -/
theorem frame_speeds_nothing_up (hvalid : w.validate = .ok ()) (hdamps : w.Damps) (h : w.Governs s) :
    w.Governs s.step.1 ∧
      ∀ (k : Nat) (b : Body), s.bodies[k]? = some b → ∃ b', s.step.1.bodies[k]? = some b' ∧
        b'.vx.toInt.natAbs ≤ b.vx.toInt.natAbs ∧ b'.vy.toInt.natAbs ≤ b.vy.toInt.natAbs := by
  refine ⟨h.step,fun k b hb => ?_⟩
  have hbounce : s.integrate.world.bounce.IsFraction := h.world ▸ hdamps.bounce
  have hcollide : NoneFaster s.step.1.bodies s.integrate.bodies := by
    rw [step, collide_bodies]
    exact noneFaster_contests hbounce _ _
  obtain ⟨b',hb',hslower⟩ := hcollide.trans (noneFaster_integrate hdamps hvalid h) k b hb
  exact ⟨b',hb',hslower .x,hslower .y⟩

def pinball : Simulation where
  world :=
    { bounce := .one
      bodies := [{ entity := "ball", mass := 1, friction := some ⟨255⟩ }]
      pairs := [{ tagA := "ball", tagB := "post" }] }
  bodies := #[⟨128, 0, -32768, 0, 8, 8, "ball", 1, ⟨255⟩, .greatest, .greatest, true⟩,
    ⟨-4, 0, 0, 0, 8, 8, "post", 0, .one, .greatest, .greatest, true⟩,
    ⟨8, 0, 0, 0, 8, 8, "post", 0, .one, .greatest, .greatest, true⟩]

theorem damps_pinball : pinball.world.Damps where
  gravity := rfl
  zones := by decide
  bounce := by constructor <;> decide
  friction := by constructor <;> decide
  bodies := by
    rintro d hd f hf
    obtain rfl := List.mem_singleton.mp hd
    obtain rfl := Option.some.inj hf
    constructor <;> decide

theorem governs_pinball : pinball.world.Governs pinball := by
  refine ⟨rfl,fun b hb => ?_⟩
  have hslots : b ∈ pinball.bodies.toList := Array.mem_toList_iff.mpr hb
  simp only [pinball, List.mem_cons, List.not_mem_nil, or_false] at hslots
  rcases hslots with rfl | rfl | rfl
  · exact ⟨⟨"ball", "ball", none, 0, 0, 8, 8⟩,rfl⟩
  · exact ⟨⟨"post", "post", none, 0, 0, 8, 8⟩,rfl⟩
  · exact ⟨⟨"post", "post", none, 0, 0, 8, 8⟩,rfl⟩

/-- The ball bounces off both posts in one frame. -/
theorem pinball_is_not_sped_up :
    pinball.world.validate = .ok () ∧ pinball.world.Damps ∧ pinball.world.Governs pinball ∧
      pinball.step.2 = [⟨0,0,1⟩,⟨0,0,2⟩] ∧ pinball.world.Governs pinball.step.1 ∧
      ∀ (k : Nat) (b : Body), pinball.bodies[k]? = some b → ∃ b', pinball.step.1.bodies[k]? = some b' ∧
        b'.vx.toInt.natAbs ≤ b.vx.toInt.natAbs ∧ b'.vy.toInt.natAbs ≤ b.vy.toInt.natAbs :=
  ⟨rfl,damps_pinball,governs_pinball,by decide +kernel,
    frame_speeds_nothing_up rfl damps_pinball governs_pinball⟩

end Simulation

end Physics

end Cartridge
