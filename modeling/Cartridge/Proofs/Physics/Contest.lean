import Mathlib.Data.List.Nodup
import Mathlib.Tactic.Common
import Cartridge.Physics.Simulation

/-!
The collisions of a frame as one run over contests. Collisions change neither tags nor who is active, so the
slots that solid pairs compare are known before the first of them is pushed.
-/
namespace Cartridge.Physics

namespace Body

def fixture (b : Body) : Body := { b with x := 0, y := 0, vx := 0, vy := 0 }

@[simp] theorem fixture_withMotion (b : Body) (axis : Axis) (position velocity : Int16) :
    (b.withMotion axis position velocity).fixture = b.fixture := by cases axis <;> rfl

theorem fixture_separate (coefficient : Fixed) (a b : Body) :
    (separate coefficient a b).1.fixture = a.fixture ∧ (separate coefficient a b).2.fixture = b.fixture := by
  rw [separate]
  split <;> simp [pushed]

end Body

namespace Simulation

variable {coefficient : Fixed} {bodies bodies' : Array Body} {a b k : Nat} {x y : Body}

/-- Two slots under a solid pair: if their bodies overlap, they are pushed apart. -/
def contest (coefficient : Fixed) (bodies : Array Body) (slots : Nat × Nat) : Array Body :=
  match bodies[slots.1]?, bodies[slots.2]? with
  | some x, some y =>
    if x.box.overlaps y.box then
      (bodies.setIfInBounds slots.1 (Body.separate coefficient x y).1).setIfInBounds slots.2
        (Body.separate coefficient x y).2
    else bodies
  | _, _ => bodies

def contests (pairs : List Pair) (bodies : Array Body) : List (Nat × Nat) :=
  (pairs.filter Pair.solid).flatMap (candidates bodies)

theorem contest_of_overlaps (hx : bodies[a]? = some x) (hy : bodies[b]? = some y)
    (h : x.box.overlaps y.box = true) :
    contest coefficient bodies (a,b) =
      (bodies.setIfInBounds a (Body.separate coefficient x y).1).setIfInBounds b
        (Body.separate coefficient x y).2 := by
  rw [contest, hx, hy]
  exact if_pos h

theorem contest_slots (hne : a ≠ b) (hx : bodies[a]? = some x) (hy : bodies[b]? = some y)
    (h : x.box.overlaps y.box = true) :
    (contest coefficient bodies (a,b))[a]? = some (Body.separate coefficient x y).1 ∧
      (contest coefficient bodies (a,b))[b]? = some (Body.separate coefficient x y).2 := by
  have ha := (Array.getElem?_eq_some_iff.mp hx).1
  have hb := (Array.getElem?_eq_some_iff.mp hy).1
  rw [contest_of_overlaps hx hy h]
  constructor
  · rw [Array.getElem?_setIfInBounds_ne hne.symm, Array.getElem?_setIfInBounds_self_of_lt ha]
  · rw [Array.getElem?_setIfInBounds_self_of_lt (by rwa [Array.size_setIfInBounds])]

/-- A contest pushes two bodies that overlap, or it changes nothing. -/
theorem contest_cases (coefficient : Fixed) (bodies : Array Body) (slots : Nat × Nat) :
    contest coefficient bodies slots = bodies ∨
      ∃ x y, bodies[slots.1]? = some x ∧ bodies[slots.2]? = some y ∧ x.box.overlaps y.box = true := by
  rw [contest]
  split
  next x y hx hy =>
    split
    next h => exact .inr ⟨x,y,hx,hy,h⟩
    next => exact .inl rfl
  next => exact .inl rfl

theorem setIfInBounds_self {α : Type} {xs : Array α} {i : Nat} {z : α} (h : xs[i]? = some z) :
    xs.setIfInBounds i z = xs := by
  obtain ⟨hi,rfl⟩ := Array.getElem?_eq_some_iff.mp h
  simp [Array.setIfInBounds, hi]

/-- Only solid pairs change bodies, and those by a run of contests. -/
theorem visit_bodies (coefficient : Fixed) (solid : Bool) (slots : List (Nat × Nat))
    (bodies : Array Body) :
    (visit coefficient solid slots bodies).1 =
      if solid then slots.foldl (contest coefficient) bodies else bodies := by
  induction slots generalizing bodies with
  | nil => simp [visit]
  | cons ab slots ih =>
    obtain ⟨a,b⟩ := ab
    rw [List.foldl_cons, visit, contest]
    rcases hx : bodies[a]? with _ | x
    · simp [ih]
    rcases hy : bodies[b]? with _ | y
    · simp [ih]
    by_cases hoverlap : x.box.overlaps y.box = true
    · cases solid with
      | true => simp [hoverlap, ih]
      | false => simp [hoverlap, ih, setIfInBounds_self hx, setIfInBounds_self hy]
    · simp [hoverlap, ih]

/-- What of a body no push changes, no contest changes of any. -/
theorem map_contest {α : Type} {f : Body → α}
    (hf : ∀ x y, f (Body.separate coefficient x y).1 = f x ∧ f (Body.separate coefficient x y).2 = f y)
    (bodies : Array Body) (slots : Nat × Nat) : (contest coefficient bodies slots).map f = bodies.map f := by
  rcases contest_cases coefficient bodies slots with h | ⟨x,y,hx,hy,h⟩
  · rw [h]
  · obtain ⟨hx',hy'⟩ := hf x y
    rw [contest_of_overlaps hx hy h, Array.map_setIfInBounds, Array.map_setIfInBounds, hx', hy']
    rw [setIfInBounds_self (z := f x), setIfInBounds_self]
    · rw [Array.getElem?_map, hy]
      rfl
    · rw [Array.getElem?_map, hx]
      rfl

theorem map_contests {α : Type} {f : Body → α}
    (hf : ∀ x y, f (Body.separate coefficient x y).1 = f x ∧ f (Body.separate coefficient x y).2 = f y)
    (slots : List (Nat × Nat)) (bodies : Array Body) :
    (slots.foldl (contest coefficient) bodies).map f = bodies.map f := by
  induction slots generalizing bodies with
  | nil => rfl
  | cons ab slots ih => rw [List.foldl_cons, ih, map_contest hf]

theorem fixtures_contests (coefficient : Fixed) (slots : List (Nat × Nat)) (bodies : Array Body) :
    (slots.foldl (contest coefficient) bodies).map Body.fixture = bodies.map Body.fixture :=
  map_contests (Body.fixture_separate coefficient) slots bodies

/-- The slots of a tag are told from what does not move. -/
theorem slots_congr (h : bodies'.map Body.fixture = bodies.map Body.fixture) (tag : String) :
    slots bodies' tag = slots bodies tag := by
  have hcarries (bodies : Array Body) (k : Nat) : (bodies[k]?.any fun b => b.carries tag) =
      (bodies.map Body.fixture)[k]?.any fun b => b.carries tag := by
    rw [Array.getElem?_map, Option.any_map]
    rfl
  have hsize : bodies'.size = bodies.size := by
    rw [← Array.size_map (f := Body.fixture), h, Array.size_map]
  rw [slots, slots, hsize]
  exact List.filter_congr fun k _ => by rw [hcarries, h, ← hcarries]

theorem candidates_congr (h : bodies'.map Body.fixture = bodies.map Body.fixture) :
    candidates bodies' = candidates bodies := by
  funext p
  simp only [candidates, slots_congr h]

theorem collidePairs_bodies (coefficient : Fixed) (place : Nat) (pairs : List Pair) (bodies : Array Body) :
    (collidePairs coefficient place pairs bodies).1 =
      (contests pairs bodies).foldl (contest coefficient) bodies := by
  induction pairs generalizing place bodies with
  | nil => rfl
  | cons p pairs ih =>
    rw [collidePairs]
    dsimp only
    rw [ih, visit_bodies]
    cases hsolid : p.solid with
    | false => simp [contests, hsolid]
    | true =>
      simp only [contests, List.filter_cons_of_pos hsolid, List.flatMap_cons, List.foldl_append, if_true]
      rw [candidates_congr (fixtures_contests _ _ _)]

/-- The collisions of a frame are one run of contests, which the bodies before it decide on. -/
theorem collide_bodies (s : Simulation) :
    s.collide.1.bodies = (contests s.world.pairs s.bodies).foldl (contest s.world.bounce) s.bodies :=
  collidePairs_bodies s.world.bounce 0 s.world.pairs s.bodies

theorem contest_frame (ha : a ≠ k) (hb : b ≠ k) : (contest coefficient bodies (a,b))[k]? = bodies[k]? := by
  rcases contest_cases coefficient bodies (a,b) with h | ⟨x,y,hx,hy,h⟩
  · rw [h]
  · rw [contest_of_overlaps hx hy h, Array.getElem?_setIfInBounds_ne hb, Array.getElem?_setIfInBounds_ne ha]

/-- A run of contests leaves alone the slots it does not name. -/
theorem contests_frame {slots : List (Nat × Nat)} (h : ∀ ab ∈ slots, ab.1 ≠ k ∧ ab.2 ≠ k) :
    (slots.foldl (contest coefficient) bodies)[k]? = bodies[k]? := by
  induction slots generalizing bodies with
  | nil => rfl
  | cons ab slots ih =>
    obtain ⟨hfirst,hrest⟩ := List.forall_mem_cons.mp h
    rw [List.foldl_cons, ih hrest, contest_frame hfirst.1 hfirst.2]

theorem mem_slots {tag : String} :
    k ∈ slots bodies tag ↔ ∃ b, bodies[k]? = some b ∧ b.carries tag = true := by
  rw [slots, List.mem_filter, List.mem_range, Option.any_eq_true]
  refine and_iff_right_of_imp ?_
  rintro ⟨b,hb,-⟩
  exact (Array.getElem?_eq_some_iff.mp hb).1

theorem mem_candidates {p : Pair} :
    (a,b) ∈ candidates bodies p ↔ a ∈ slots bodies p.tagA ∧ b ∈ slots bodies p.tagB ∧
      if p.tagA = p.tagB then a < b else a ≠ b := by
  simp [candidates]

theorem pairwise_slots (bodies : Array Body) (tag : String) : (slots bodies tag).Pairwise (· < ·) :=
  List.pairwise_lt_range.filter _

/-- A pair goes through its slots in lexicographic order. -/
theorem pairwise_candidates (bodies : Array Body) (p : Pair) :
    (candidates bodies p).Pairwise (Prod.Lex (· < ·) (· < ·)) := by
  refine List.pairwise_flatMap.mpr ⟨fun a _ => ?_,?_⟩
  · exact List.pairwise_map.mpr (((pairwise_slots bodies p.tagB).filter _).imp (.right a))
  · refine (pairwise_slots bodies p.tagA).imp fun hlt ab hab ab' hab' => ?_
    obtain ⟨b,-,rfl⟩ := List.mem_map.mp hab
    obtain ⟨b',-,rfl⟩ := List.mem_map.mp hab'
    exact .left b b' hlt

theorem nodup_candidates (bodies : Array Body) (p : Pair) : (candidates bodies p).Nodup := by
  refine (pairwise_candidates bodies p).imp ?_
  rintro ab _ hlt rfl
  rcases Prod.lex_def.mp hlt with hfirst | ⟨-,hsecond⟩
  · exact Nat.lt_irrefl _ hfirst
  · exact Nat.lt_irrefl _ hsecond

end Simulation

end Cartridge.Physics
