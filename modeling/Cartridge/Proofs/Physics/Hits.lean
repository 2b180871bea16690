import Cartridge.Proofs.Physics.Frame

/-!
The hits of a frame. They come in the order in which pairs and slots are gone through, so none comes twice.
Pushes move bodies between one comparison and the next, but neither tags nor who is active, so the slots a pair
compares are those it would have compared before the frame; without solid pairs the hits are all of these that
overlap.
-/
namespace Cartridge.Physics

namespace Hit

/-- By pairs, then by first slots, then by second ones. -/
def Precedes (h h' : Hit) : Prop :=
  Prod.Lex (· < ·) (Prod.Lex (· < ·) (· < ·)) (h.pair,h.a,h.b) (h'.pair,h'.a,h'.b)

/-- The pair of a hit compares its slots: two active bodies, the first with one and the second with the other
tag. Under one tag the first slot is the lower one. -/
def Compared (pairs : List Pair) (bodies : Array Body) (h : Hit) : Prop :=
  ∃ p x y, pairs[h.pair]? = some p ∧ bodies[h.a]? = some x ∧ bodies[h.b]? = some y ∧
    (x.active = true ∧ x.tag = p.tagA) ∧ (y.active = true ∧ y.tag = p.tagB) ∧
    h.a ≠ h.b ∧ (p.tagA = p.tagB → h.a < h.b)

end Hit

def Overlapping (bodies : Array Body) (ab : Nat × Nat) : Prop :=
  ∃ x y, bodies[ab.1]? = some x ∧ bodies[ab.2]? = some y ∧ x.box.overlaps y.box = true

theorem Body.carries_iff {b : Body} {tag : String} :
    b.carries tag = true ↔ b.active = true ∧ b.tag = tag := by
  simp [carries]

namespace Simulation

variable {coefficient : Fixed} {bodies bodies' : Array Body} {pairs : List Pair} {p : Pair} {h : Hit}

theorem compared_iff :
    h.Compared pairs bodies ↔ ∃ p, pairs[h.pair]? = some p ∧ (h.a,h.b) ∈ candidates bodies p := by
  have horder {q : Pair} : (if q.tagA = q.tagB then h.a < h.b else h.a ≠ h.b) ↔
      h.a ≠ h.b ∧ (q.tagA = q.tagB → h.a < h.b) := by
    split
    next htags => exact ⟨fun hlt => ⟨Nat.ne_of_lt hlt,fun _ => hlt⟩,fun hboth => hboth.2 htags⟩
    next htags => exact ⟨fun hne => ⟨hne,fun heq => absurd heq htags⟩,And.left⟩
  simp only [mem_candidates, mem_slots, horder, Body.carries_iff]
  constructor
  · rintro ⟨q,x,y,hq,hx,hy,hA,hB,hslots⟩
    exact ⟨q,hq,⟨x,hx,hA⟩,⟨y,hy,hB⟩,hslots⟩
  · rintro ⟨q,hq,⟨x,hx,hA⟩,⟨y,hy,hB⟩,hslots⟩
    exact ⟨q,x,y,hq,hx,hy,hA,hB,hslots⟩

theorem compared_congr (hfixtures : bodies'.map Body.fixture = bodies.map Body.fixture) :
    h.Compared pairs bodies' ↔ h.Compared pairs bodies := by
  rw [compared_iff, compared_iff, candidates_congr hfixtures]

theorem visit_hits_sublist (coefficient : Fixed) (solid : Bool) (slots : List (Nat × Nat))
    (bodies : Array Body) : (visit coefficient solid slots bodies).2.Sublist slots := by
  induction slots generalizing bodies with
  | nil => exact .slnil
  | cons ab slots ih =>
    rw [visit]
    split
    · split
      · exact (ih _).cons_cons ab
      · exact (ih _).cons ab
    · exact (ih _).cons ab

/-- Without pushes every comparison sees the same bodies. -/
theorem mem_visit_quiet (coefficient : Fixed) (slots : List (Nat × Nat)) (bodies : Array Body)
    {ab : Nat × Nat} :
    ab ∈ (visit coefficient false slots bodies).2 ↔ ab ∈ slots ∧ Overlapping bodies ab := by
  induction slots with
  | nil => simp [visit]
  | cons cd slots ih =>
    have hskip (hnot : ¬Overlapping bodies cd) :
        ab ∈ (visit coefficient false slots bodies).2 ↔ ab ∈ cd :: slots ∧ Overlapping bodies ab := by
      rw [ih, List.mem_cons, or_and_right]
      refine (or_iff_right ?_).symm
      rintro ⟨rfl,hab⟩
      exact hnot hab
    rw [visit]
    split
    next x y hx hy =>
      split
      next hoverlap =>
        dsimp only [Bool.false_eq_true, if_false]
        rw [if_neg Bool.false_ne_true, setIfInBounds_self hx, setIfInBounds_self hy, List.mem_cons, ih,
          List.mem_cons, or_and_right]
        refine or_congr_left (and_iff_left_of_imp ?_).symm
        rintro rfl
        exact ⟨x,y,hx,hy,hoverlap⟩
      next hoverlap =>
        refine hskip ?_
        rintro ⟨x',y',hx',hy',h⟩
        rw [Option.some.inj (hx'.symm.trans hx), Option.some.inj (hy'.symm.trans hy)] at h
        exact hoverlap h
    next hnone =>
      refine hskip ?_
      rintro ⟨x,y,hx,hy,-⟩
      exact hnone x y hx hy

theorem fixtures_visit (coefficient : Fixed) (solid : Bool) (slots : List (Nat × Nat)) (bodies : Array Body) :
    (visit coefficient solid slots bodies).1.map Body.fixture = bodies.map Body.fixture := by
  rw [visit_bodies]
  split
  · exact fixtures_contests coefficient slots bodies
  · rfl

theorem mem_collidePairs_cons (coefficient : Fixed) (place : Nat) (p : Pair) (pairs : List Pair)
    (bodies : Array Body) :
    h ∈ (collidePairs coefficient place (p :: pairs) bodies).2 ↔
      (h.pair = place ∧ (h.a,h.b) ∈ (visit coefficient p.solid (candidates bodies p) bodies).2) ∨
      h ∈ (collidePairs coefficient (place + 1) pairs
        (visit coefficient p.solid (candidates bodies p) bodies).1).2 := by
  rw [collidePairs, List.mem_append, List.mem_map]
  refine or_congr_left ⟨?_,?_⟩
  · rintro ⟨ab,hab,rfl⟩
    exact ⟨rfl,hab⟩
  · rintro ⟨rfl,hab⟩
    exact ⟨_,hab,rfl⟩

/-- Pairs are counted on from the place of the first. -/
private theorem place_cons {place n : Nat} {Q : Pair → Prop} :
    (∃ k q, n = place + k ∧ (p :: pairs)[k]? = some q ∧ Q q) ↔
      (n = place ∧ Q p) ∨ ∃ k q, n = place + 1 + k ∧ pairs[k]? = some q ∧ Q q := by
  constructor
  · rintro ⟨_ | k,q,hn,hq,hQ⟩
    · rw [List.getElem?_cons_zero, Option.some.injEq] at hq
      exact .inl ⟨hn,hq ▸ hQ⟩
    · exact .inr ⟨k,q,by omega,hq,hQ⟩
  · rintro (⟨hn,hQ⟩ | ⟨k,q,hn,hq,hQ⟩)
    · exact ⟨0,p,hn,rfl,hQ⟩
    · exact ⟨k + 1,q,by omega,hq,hQ⟩

/-- A hit is a comparison of its pair, as the bodies before the first push decide on it. -/
theorem candidate_of_mem_hits {place : Nat} (hmem : h ∈ (collidePairs coefficient place pairs bodies).2) :
    ∃ k q, h.pair = place + k ∧ pairs[k]? = some q ∧ (h.a,h.b) ∈ candidates bodies q := by
  induction pairs generalizing place bodies with
  | nil => exact absurd hmem List.not_mem_nil
  | cons p pairs ih =>
    rw [place_cons]
    rcases (mem_collidePairs_cons ..).mp hmem with ⟨hplace,hab⟩ | hlater
    · exact .inl ⟨hplace,(visit_hits_sublist ..).subset hab⟩
    · rw [← candidates_congr (fixtures_visit coefficient p.solid (candidates bodies p) bodies)]
      exact .inr (ih hlater)

theorem pairwise_hits (coefficient : Fixed) (place : Nat) (pairs : List Pair) (bodies : Array Body) :
    (collidePairs coefficient place pairs bodies).2.Pairwise Hit.Precedes := by
  induction pairs generalizing place bodies with
  | nil => exact .nil
  | cons p pairs ih =>
    rw [collidePairs]
    refine List.pairwise_append.mpr ⟨?_,ih _ _,fun h hfirst h' hlater => ?_⟩
    · exact List.pairwise_map.mpr
        (((pairwise_candidates bodies p).sublist (visit_hits_sublist ..)).imp (.right place))
    · obtain ⟨ab,-,rfl⟩ := List.mem_map.mp hfirst
      obtain ⟨k,q,hplace,-,-⟩ := candidate_of_mem_hits hlater
      refine .left _ _ ?_
      change place < h'.pair
      omega

/-- Without solid pairs every comparison of overlapping bodies is a hit. -/
theorem mem_hits_quiet (coefficient : Fixed) (place : Nat) (bodies : Array Body)
    (hquiet : ∀ p ∈ pairs, p.solid = false) :
    h ∈ (collidePairs coefficient place pairs bodies).2 ↔
      ∃ k q, h.pair = place + k ∧ pairs[k]? = some q ∧
        (h.a,h.b) ∈ candidates bodies q ∧ Overlapping bodies (h.a,h.b) := by
  induction pairs generalizing place with
  | nil => simp [collidePairs]
  | cons p pairs ih =>
    obtain ⟨hp,hpairs⟩ := List.forall_mem_cons.mp hquiet
    have hbodies : (visit coefficient false (candidates bodies p) bodies).1 = bodies := visit_bodies ..
    rw [mem_collidePairs_cons, hp, hbodies, mem_visit_quiet, ih _ hpairs, place_cons]

/-- The hits of a frame strictly ascend by pair and slots. Each names two active bodies with the tags of its
pair, and in different slots, the lower one first if the tags are equal. If no pair is solid, collisions change
nothing, and the hits are exactly the comparisons of bodies that overlap once all have moved. -/
theorem hits_ascend_and_are_complete (s : Simulation) :
    s.step.2.Pairwise Hit.Precedes ∧
      (∀ h ∈ s.step.2, h.Compared s.world.pairs s.bodies ∧ h.Compared s.world.pairs s.step.1.bodies) ∧
      ((∀ p ∈ s.world.pairs, p.solid = false) →
        s.step.1 = s.integrate ∧
        ∀ h : Hit, h ∈ s.step.2 ↔
          h.Compared s.world.pairs s.integrate.bodies ∧ Overlapping s.integrate.bodies (h.a,h.b)) := by
  have hplace (h : Hit) {Q : Pair → Prop} :
      (∃ k q, h.pair = 0 + k ∧ s.world.pairs[k]? = some q ∧ Q q) ↔
        ∃ q, s.world.pairs[h.pair]? = some q ∧ Q q := by
    simp
  have hmoved := fixtures_of_held (held_integrate s)
  have hdone := fixtures_of_held (held_step s)
  refine ⟨pairwise_hits ..,fun h hmem => ?_,fun hquiet => ⟨?_,fun h => ?_⟩⟩
  · have hcompared := compared_iff.mpr ((hplace h).mp (candidate_of_mem_hits hmem))
    rw [compared_congr hdone, ← compared_congr hmoved]
    exact ⟨hcompared,hcompared⟩
  · have hnone : contests s.world.pairs s.integrate.bodies = [] := by
      have hsolid : s.world.pairs.filter Pair.solid = [] :=
        List.filter_eq_nil_iff.mpr fun p hp => by simp [hquiet p hp]
      rw [contests, hsolid, List.flatMap_nil]
    have hbodies : s.step.1.bodies = s.integrate.bodies := by
      rw [step, collide_bodies]
      exact congrArg (List.foldl _ _) hnone
    calc s.step.1 = { s.integrate with bodies := s.step.1.bodies } := rfl
      _ = s.integrate := by rw [hbodies]
  · rw [compared_iff, ← exists_and_right]
    refine (mem_hits_quiet s.world.bounce 0 s.integrate.bodies hquiet).trans ((hplace h).trans ?_)
    simp only [and_assoc]

def coin (x : Int16) (active : Bool) : Body :=
  ⟨x, 0, 0, 0, 8, 8, "coin", 0, .one, .greatest, .greatest, active⟩

def coinRun : Simulation where
  world := { pairs := [⟨"coin", "coin", false, []⟩,⟨"hero", "coin", false, []⟩] }
  bodies := #[coin 0 true,⟨4, 0, 256, 0, 8, 8, "hero", 1, .one, .greatest, .greatest, true⟩,coin 6 true,
    coin 6 false]

theorem coinRun_hits_ascend_and_are_complete :
    (∀ p ∈ coinRun.world.pairs, p.solid = false) ∧ coinRun.step.2 = [⟨0,0,2⟩,⟨1,1,0⟩,⟨1,1,2⟩] ∧
      coinRun.step.2.Pairwise Hit.Precedes ∧
      (∀ h ∈ coinRun.step.2, h.Compared coinRun.world.pairs coinRun.bodies ∧
        h.Compared coinRun.world.pairs coinRun.step.1.bodies) ∧
      coinRun.step.1 = coinRun.integrate ∧
      ∀ h : Hit, h ∈ coinRun.step.2 ↔ h.Compared coinRun.world.pairs coinRun.integrate.bodies ∧
        Overlapping coinRun.integrate.bodies (h.a,h.b) := by
  obtain ⟨hascend,hcompared,hcomplete⟩ := hits_ascend_and_are_complete coinRun
  exact ⟨by decide,by decide +kernel,hascend,hcompared,hcomplete (by decide)⟩

end Simulation

end Cartridge.Physics
