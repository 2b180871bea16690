import Mathlib.Tactic.Common
import Cartridge.Proofs.Nav.Place

/-!
Legal walks on a grid and what they cost. The directions of a search are the legal steps, and where
every step costs something the estimates never exceed the cost of a walk to the goal.
-/
namespace Cartridge.Nav

attribute [ext] Tile

namespace Grid

/-- A legal step: to a walkable tile beside or, if allowed and past no blocked corner, across. -/
structure Step (g : Grid) (diagonal : Bool) (a b : Tile) : Prop where
  walkable : g.isWalkable b = true
  moves : a ≠ b
  near_x : a.x.toNat ≤ b.x.toNat + 1 ∧ b.x.toNat ≤ a.x.toNat + 1
  near_y : a.y.toNat ≤ b.y.toNat + 1 ∧ b.y.toNat ≤ a.y.toNat + 1
  corners : a.x ≠ b.x → a.y ≠ b.y →
    diagonal = true ∧ g.isWalkable ⟨b.x,a.y⟩ = true ∧ g.isWalkable ⟨a.x,b.y⟩ = true

/-- The tiles entered one after another on the way from a tile to another. -/
inductive Walk (g : Grid) (diagonal : Bool) : Tile → List Tile → Tile → Prop
  | stay (a : Tile) : Walk g diagonal a [] a
  | step {a b c : Tile} {path : List Tile} (h : g.Step diagonal a b) (rest : Walk g diagonal b path c) :
    Walk g diagonal a (b :: path) c

def cost (g : Grid) : List Tile → Nat
  | [] => 0
  | t :: path => (g.weight t).toNat + cost g path

theorem cost_cons (g : Grid) (t : Tile) (path : List Tile) :
    g.cost (t :: path) = (g.weight t).toNat + g.cost path := rfl

/-- Whether a direction leads to a walkable tile past no blocked corner. -/
def allows (g : Grid) (t : Tile) (d : Direction) : Bool :=
  g.isWalkable (d.apply t) &&
    (!d.isDiagonal || g.isWalkable ⟨(d.apply t).x,t.y⟩ && g.isWalkable ⟨t.x,(d.apply t).y⟩)

theorem IsSized.canStep?_eq {g : Grid} (h : g.IsSized) (t : Tile) (d : Direction) :
    Search.canStep? g t d = some (g.allows t d) := by
  simp only [Search.canStep?, h.isWalkable?_eq, Option.bind_eq_bind, Option.bind_some, allows]
  cases g.isWalkable (d.apply t) <;> cases d.isDiagonal <;>
    cases g.isWalkable ⟨(d.apply t).x,t.y⟩ <;> simp

/-- Neighbouring coordinates are one apart, modulo 256 as well. -/
private theorem near_iff {m : Nat} (hm : m ≤ maxGridEdge) {a b : UInt8} (ha : a.toNat < m)
    (hb : b.toNat < m) :
    (a.toNat ≤ b.toNat + 1 ∧ b.toNat ≤ a.toNat + 1) ↔ ∃ d ∈ [0, 1, -1], a + d = b := by
  have hm : m ≤ 32 := hm
  have hzero : (0 : UInt8).toNat = 0 := rfl
  have hone : (1 : UInt8).toNat = 1 := rfl
  have hminus : (-1 : UInt8).toNat = 255 := rfl
  simp only [List.mem_cons, List.not_mem_nil, or_false, exists_eq_or_imp, exists_eq_left]
  simp only [← UInt8.toNat_inj, UInt8.toNat_add, hzero, hone, hminus]
  have hstay : (a.toNat + 0) % 256 = b.toNat ↔ a.toNat = b.toNat := by omega
  have hahead : (a.toNat + 1) % 256 = b.toNat ↔ a.toNat + 1 = b.toNat := by omega
  have hback : (a.toNat + 255) % 256 = b.toNat ↔ a.toNat = b.toNat + 1 := by omega
  rw [hstay, hahead, hback]
  omega

private theorem mem_directions_iff (c : Config) (d : Direction) :
    d ∈ c.directions ↔ d.dx ∈ [0, 1, -1] ∧ d.dy ∈ [0, 1, -1] ∧ (d.dx ≠ 0 ∨ d.dy ≠ 0) ∧
      (d.isDiagonal = true → c.diagonal = true) := by
  obtain ⟨dx,dy⟩ := d
  constructor
  · intro h
    unfold Config.directions at h
    split_ifs at h with hc
    · simp only [Direction.eight, List.mem_cons, Direction.mk.injEq, List.not_mem_nil, or_false] at h
      rcases h with ⟨rfl,rfl⟩ | ⟨rfl,rfl⟩ | ⟨rfl,rfl⟩ | ⟨rfl,rfl⟩ | ⟨rfl,rfl⟩ | ⟨rfl,rfl⟩ | ⟨rfl,rfl⟩ |
        ⟨rfl,rfl⟩ <;> exact ⟨by decide,by decide,by decide,fun _ => hc⟩
    · simp only [Direction.four, List.mem_cons, Direction.mk.injEq, List.not_mem_nil, or_false] at h
      rcases h with ⟨rfl,rfl⟩ | ⟨rfl,rfl⟩ | ⟨rfl,rfl⟩ | ⟨rfl,rfl⟩ <;>
        exact ⟨by decide,by decide,by decide,fun h => absurd h (by decide)⟩
  · rintro ⟨hx,hy,hne,hdiag⟩
    simp only [List.mem_cons, List.not_mem_nil, or_false] at hx hy
    rcases hx with rfl | rfl | rfl <;> rcases hy with rfl | rfl | rfl <;>
      cases hc : c.diagonal <;> simp_all [Config.directions, Direction.isDiagonal] <;> decide

/-- A direction leaves a coordinate alone only where it is zero. -/
private theorem apply_eq_iff (d : Direction) (a : Tile) :
    (a.x = (d.apply a).x ↔ d.dx = 0) ∧ (a.y = (d.apply a).y ↔ d.dy = 0) := by
  simp [Direction.apply]

private theorem corners_iff {g : Grid} {c : Config} {a : Tile} {d : Direction}
    (hdiag : d.isDiagonal = true → c.diagonal = true) :
    (a.x ≠ (d.apply a).x → a.y ≠ (d.apply a).y → c.diagonal = true ∧
      g.isWalkable ⟨(d.apply a).x,a.y⟩ = true ∧ g.isWalkable ⟨a.x,(d.apply a).y⟩ = true) ↔
    (!d.isDiagonal || g.isWalkable ⟨(d.apply a).x,a.y⟩ && g.isWalkable ⟨a.x,(d.apply a).y⟩) = true := by
  have hx := (apply_eq_iff d a).1
  have hy := (apply_eq_iff d a).2
  simp only [ne_eq, hx, hy, Bool.or_eq_true, Bool.not_eq_true', Bool.and_eq_true]
  simp only [Direction.isDiagonal, Bool.and_eq_true, decide_eq_true_eq, Bool.and_eq_false_iff,
    decide_eq_false_iff_not, not_not] at hdiag ⊢
  by_cases hdx : d.dx = 0
  · simp [hdx]
  · by_cases hdy : d.dy = 0
    · simp [hdy]
    · simp [hdx, hdy, hdiag ⟨hdx,hdy⟩]

/-- The directions of a search are the legal steps. -/
theorem IsSized.step_iff {g : Grid} (h : g.IsSized) {a b : Tile} (ha : g.contains a = true)
    (c : Config) :
    g.Step c.diagonal a b ↔ ∃ d ∈ c.directions, g.allows a d = true ∧ d.apply a = b := by
  obtain ⟨hax,hay⟩ := contains_iff.mp ha
  constructor
  · rintro ⟨hwalk,hne,hx,hy,hcorners⟩
    obtain ⟨hbx,hby⟩ := contains_iff.mp (contains_of_isWalkable hwalk)
    obtain ⟨dx,hdx,hbdx⟩ := (near_iff h.width_le hax hbx).mp hx
    obtain ⟨dy,hdy,hbdy⟩ := (near_iff h.height_le hay hby).mp hy
    obtain rfl : (Direction.mk dx dy).apply a = b := by
      rw [Direction.apply, hbdx, hbdy]
    have hdx0 := (apply_eq_iff ⟨dx,dy⟩ a).1
    have hdy0 := (apply_eq_iff ⟨dx,dy⟩ a).2
    have hdiag : (Direction.mk dx dy).isDiagonal = true → c.diagonal = true := by
      intro hd
      simp only [Direction.isDiagonal, Bool.and_eq_true, decide_eq_true_eq] at hd
      exact (hcorners (mt hdx0.mp hd.1) (mt hdy0.mp hd.2)).1
    refine ⟨⟨dx,dy⟩,(mem_directions_iff c _).mpr ⟨hdx,hdy,?_,hdiag⟩,?_,rfl⟩
    · by_contra hzero
      simp only [not_or, not_not] at hzero
      exact hne (Tile.ext (hdx0.mpr hzero.1) (hdy0.mpr hzero.2))
    · exact Bool.and_eq_true_iff.mpr ⟨hwalk,(corners_iff hdiag).mp hcorners⟩
  · rintro ⟨d,hd,hallows,rfl⟩
    obtain ⟨hdx,hdy,hne,hdiag⟩ := (mem_directions_iff c d).mp hd
    obtain ⟨hwalk,hcorners⟩ := Bool.and_eq_true_iff.mp hallows
    obtain ⟨hbx,hby⟩ := contains_iff.mp (contains_of_isWalkable hwalk)
    refine ⟨hwalk,fun he => ?_,(near_iff h.width_le hax hbx).mpr ⟨_,hdx,rfl⟩,
      (near_iff h.height_le hay hby).mpr ⟨_,hdy,rfl⟩,(corners_iff hdiag).mpr hcorners⟩
    rcases hne with hne | hne
    · exact hne ((apply_eq_iff d a).1.mp (congrArg Tile.x he))
    · exact hne ((apply_eq_iff d a).2.mp (congrArg Tile.y he))

end Grid

theorem Heuristic.estimate_self (h : Heuristic) (t : Tile) : h.estimate t t = 0 := by
  cases h <;> simp [estimate, distance]

/-- Between neighbouring coordinates a distance changes by one at most. -/
private theorem Heuristic.distance_le {a b : UInt8}
    (h : a.toNat ≤ b.toNat + 1 ∧ b.toNat ≤ a.toNat + 1) (c : UInt8) :
    distance a c ≤ distance b c + 1 := by
  simp only [distance]
  omega

/-- No estimate on a grid exceeds both its edges together. -/
theorem Grid.IsSized.estimate_le {g : Grid} (hg : g.IsSized) (h : Heuristic) {a b : Tile}
    (ha : g.contains a = true) (hb : g.contains b = true) : h.estimate a b ≤ 62 := by
  obtain ⟨hax,hay⟩ := contains_iff.mp ha
  obtain ⟨hbx,hby⟩ := contains_iff.mp hb
  have hw : g.width.toNat ≤ 32 := hg.width_le
  have hh : g.height.toNat ≤ 32 := hg.height_le
  cases h <;> simp only [Heuristic.estimate, Heuristic.distance] <;> omega

/-- Every step costs something, and the estimate counts no step twice. -/
structure Query.IsFair (q : Query) : Prop where
  weight_pos : ∀ t, q.grid.isWalkable t = true → 1 ≤ (q.grid.weight t).toNat
  counts : q.config.diagonal = false ∨ q.config.heuristic = .chebyshev

namespace Query.IsFair

variable {q : Query} (h : q.IsFair)

include h

/-- A step brings the goal no nearer than its weight. -/
theorem estimate_step {a b : Tile} (hs : q.grid.Step q.config.diagonal a b) :
    q.config.heuristic.estimate a q.goal ≤
      q.config.heuristic.estimate b q.goal + (q.grid.weight b).toNat := by
  have hw := h.weight_pos b hs.walkable
  obtain ⟨-,-,hx,hy,hcorners⟩ := hs
  have hdx := Heuristic.distance_le hx q.goal.x
  have hdy := Heuristic.distance_le hy q.goal.y
  cases hc : q.config.heuristic with
  | chebyshev =>
    simp only [Heuristic.estimate]
    omega
  | manhattan =>
    have hdiag : q.config.diagonal = false := by
      rcases h.counts with hd | hd
      · exact hd
      · rw [hc] at hd
        cases hd
    have hstraight : a.x = b.x ∨ a.y = b.y := by
      by_contra hboth
      simp only [not_or] at hboth
      have htrue := (hcorners hboth.1 hboth.2).1
      rw [hdiag] at htrue
      cases htrue
    simp only [Heuristic.estimate]
    rcases hstraight with he | he
    · rw [he]
      omega
    · rw [he]
      omega

/-- The estimate never exceeds the cost of a walk to the goal. -/
theorem estimate_le_cost {a b : Tile} {path : List Tile}
    (hwalk : q.grid.Walk q.config.diagonal a path b) (hb : b = q.goal) :
    q.config.heuristic.estimate a q.goal ≤ q.grid.cost path := by
  induction hwalk with
  | stay a => rw [hb, Heuristic.estimate_self]; exact Nat.zero_le _
  | step hs _ ih =>
    have hstep := h.estimate_step hs
    have hrest := ih hb
    rw [Grid.cost_cons]
    omega

end Query.IsFair

end Cartridge.Nav
