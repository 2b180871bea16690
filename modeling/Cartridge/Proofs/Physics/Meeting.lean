import Cartridge.Proofs.Physics.Contest
import Cartridge.Proofs.Physics.Separation

/-!
Two bodies that meet in a frame, while no solid pair joins either to a third. Whatever else collides, they have
one contest, and come out of it as if it had been the only one.
-/
namespace Cartridge.Physics

theorem Body.carries_unique {b : Body} {tag tag' : String} (h : b.carries tag = true)
    (h' : b.carries tag' = true) : tag = tag' := by
  simp only [carries, Bool.and_eq_true, decide_eq_true_eq] at h h'
  exact h.2.symm.trans h'.2

def Pair.joins (p : Pair) (x y : Body) : Bool :=
  x.carries p.tagA && y.carries p.tagB || y.carries p.tagA && x.carries p.tagB

theorem Pair.joins_iff {p : Pair} {x y : Body} :
    p.joins x y = true ↔ (x.carries p.tagA = true ∧ y.carries p.tagB = true) ∨
      (y.carries p.tagA = true ∧ x.carries p.tagB = true) := by
  simp [joins]

theorem Pair.joins_comm (p : Pair) (x y : Body) : p.joins y x = p.joins x y := Bool.or_comm ..

namespace Simulation

/-- Two slots that one solid pair joins, while none joins them to a third. -/
structure Meet (s : Simulation) (i j : Nat) (x y : Body) : Prop where
  distinct : i ≠ j
  first : s.bodies[i]? = some x
  second : s.bodies[j]? = some y
  one_pair : ∃ p, ((s.world.pairs.filter Pair.solid).filter fun p => p.joins x y) = [p]
  no_third : ∀ k z, s.bodies[k]? = some z → k ≠ i → k ≠ j →
    ∀ p ∈ s.world.pairs.filter Pair.solid, p.joins x z = false ∧ p.joins y z = false

def touches (i j : Nat) (slots : Nat × Nat) : Bool :=
  (slots.1 = i || slots.1 = j) || (slots.2 = i || slots.2 = j)

def Between (i j : Nat) (slots : Nat × Nat) : Prop := slots = (i,j) ∨ slots = (j,i)

variable {s : Simulation} {i j : Nat} {x y : Body} {p : Pair}

theorem mem_candidates_iff {bodies : Array Body} {a b : Nat} (hx : bodies[a]? = some x)
    (hy : bodies[b]? = some y) :
    (a,b) ∈ candidates bodies p ↔ x.carries p.tagA = true ∧ y.carries p.tagB = true ∧
      if p.tagA = p.tagB then a < b else a ≠ b := by
  simp [mem_candidates, mem_slots, hx, hy]

/-- What a solid pair joins to one of the two slots is the other one. -/
theorem Meet.other (h : s.Meet i j x y) (hp : p ∈ s.world.pairs.filter Pair.solid) {k l : Nat}
    {z w : Body} (hz : s.bodies[k]? = some z) (hw : s.bodies[l]? = some w) (hjoins : p.joins z w = true)
    (hk : k = i ∨ k = j) : l = i ∨ l = j := by
  by_contra hl
  rw [not_or] at hl
  obtain ⟨hx,hy⟩ := h.no_third l w hw hl.1 hl.2 p hp
  rcases hk with rfl | rfl
  · obtain rfl : x = z := Option.some.inj (h.first.symm.trans hz)
    simp [hjoins] at hx
  · obtain rfl : y = z := Option.some.inj (h.second.symm.trans hz)
    simp [hjoins] at hy

/-- A contest that is about one of the two slots is about both. -/
theorem Meet.between (h : s.Meet i j x y) (hp : p ∈ s.world.pairs.filter Pair.solid)
    {slots : Nat × Nat} (hmem : slots ∈ candidates s.bodies p) (htouches : touches i j slots = true) :
    p.joins x y = true ∧ Between i j slots := by
  obtain ⟨a,b⟩ := slots
  obtain ⟨ha,hb,horder⟩ := mem_candidates.mp hmem
  obtain ⟨z,hz,hA⟩ := mem_slots.mp ha
  obtain ⟨w,hw,hB⟩ := mem_slots.mp hb
  have hjoins : p.joins z w = true := Pair.joins_iff.mpr (.inl ⟨hA,hB⟩)
  have hne : a ≠ b := by
    split at horder
    · exact Nat.ne_of_lt horder
    · exact horder
  have hboth : (a = i ∨ a = j) ∧ (b = i ∨ b = j) := by
    simp only [touches, Bool.or_eq_true, decide_eq_true_eq] at htouches
    rcases htouches with hone | hone
    · exact ⟨hone,h.other hp hz hw hjoins hone⟩
    · exact ⟨h.other hp hw hz ((Pair.joins_comm p z w).trans hjoins) hone,hone⟩
  have hxy (hx : s.bodies[i]? = some z) (hy : s.bodies[j]? = some w) : p.joins x y = true := by
    rw [Option.some.inj (h.first.symm.trans hx), Option.some.inj (h.second.symm.trans hy), hjoins]
  rcases hboth with ⟨rfl | rfl,rfl | rfl⟩
  · exact absurd rfl hne
  · exact ⟨hxy hz hw,.inl rfl⟩
  · refine ⟨?_,.inr rfl⟩
    rw [Option.some.inj (h.first.symm.trans hw), Option.some.inj (h.second.symm.trans hz), Pair.joins_comm,
      hjoins]
  · exact absurd rfl hne

private theorem one_order {bodies : Array Body} (hne : i ≠ j) (hx : bodies[i]? = some x)
    (hy : bodies[j]? = some y) (hA : x.carries p.tagA = true) (hB : y.carries p.tagB = true) :
    ∃ slots, Between i j slots ∧ slots ∈ candidates bodies p ∧ slots.swap ∉ candidates bodies p := by
  have hij := mem_candidates_iff (p := p) hx hy
  have hji := mem_candidates_iff (p := p) hy hx
  by_cases htags : p.tagA = p.tagB
  · have hcarry : y.carries p.tagA = true ∧ x.carries p.tagB = true :=
      ⟨by rwa [htags],by rwa [← htags]⟩
    simp only [if_pos htags, hA, hB, hcarry, true_and] at hij hji
    rcases Nat.lt_or_gt_of_ne hne with hlt | hgt
    · exact ⟨(i,j),.inl rfl,hij.mpr hlt,fun hswap => Nat.lt_asymm hlt (hji.mp hswap)⟩
    · exact ⟨(j,i),.inr rfl,hji.mpr hgt,fun hswap => Nat.lt_asymm hgt (hij.mp hswap)⟩
  · refine ⟨(i,j),.inl rfl,hij.mpr ⟨hA,hB,by rwa [if_neg htags]⟩,fun hswap => htags ?_⟩
    exact Body.carries_unique hA (hji.mp hswap).2.1

/-- A pair that joins the two slots compares them once, in one order. -/
theorem Meet.one_order (h : s.Meet i j x y) (hjoins : p.joins x y = true) :
    ∃ slots, Between i j slots ∧ slots ∈ candidates s.bodies p ∧ slots.swap ∉ candidates s.bodies p := by
  rcases Pair.joins_iff.mp hjoins with ⟨hA,hB⟩ | ⟨hA,hB⟩
  · exact Simulation.one_order h.distinct h.first h.second hA hB
  · obtain ⟨slots,hbetween,hmem⟩ := Simulation.one_order h.distinct.symm h.second h.first hA hB
    exact ⟨slots,hbetween.symm,hmem⟩

theorem touches_of_between {slots : Nat × Nat} (h : Between i j slots) : touches i j slots = true := by
  rcases h with rfl | rfl <;> simp [touches]

/-- What a solid pair compares with one of the two slots. -/
theorem Meet.filter_candidates (h : s.Meet i j x y) (hp : p ∈ s.world.pairs.filter Pair.solid) :
    (p.joins x y = false → (candidates s.bodies p).filter (touches i j) = []) ∧
      (p.joins x y = true → ∃ slots, Between i j slots ∧
        (candidates s.bodies p).filter (touches i j) = [slots]) := by
  constructor
  · intro hjoins
    refine List.filter_eq_nil_iff.mpr fun slots hmem htouches => ?_
    simp [(h.between hp hmem htouches).1] at hjoins
  · intro hjoins
    obtain ⟨slots,hbetween,hmem,hswap⟩ := h.one_order hjoins
    refine ⟨slots,hbetween,List.perm_singleton.mp ?_⟩
    refine (List.perm_ext_iff_of_nodup ((nodup_candidates _ _).filter _) (List.nodup_singleton _)).mpr
      fun slots' => ?_
    rw [List.mem_filter, List.mem_singleton]
    constructor
    · rintro ⟨hmem',htouches⟩
      have hbetween' := (h.between hp hmem' htouches).2
      rcases hbetween with rfl | rfl <;> rcases hbetween' with rfl | rfl
      · rfl
      · exact absurd hmem' hswap
      · exact absurd hmem' hswap
      · rfl
    · rintro rfl
      exact ⟨hmem,touches_of_between hbetween⟩

/-- In a frame the two slots have one contest, and it is with each other. -/
theorem Meet.one_contest (h : s.Meet i j x y) :
    ∃ before slots after, contests s.world.pairs s.bodies = before ++ slots :: after ∧ Between i j slots ∧
      ∀ other ∈ before ++ after, touches i j other = false := by
  obtain ⟨p,hone⟩ := h.one_pair
  obtain ⟨earlier,later,hpairs,hearlier,hjoins,hlater⟩ := List.filter_eq_cons_iff.mp hone
  have hp {q : Pair} (hq : q ∈ earlier ++ p :: later) : q ∈ s.world.pairs.filter Pair.solid := hpairs ▸ hq
  have hnone {pairs : List Pair} (hsub : ∀ q ∈ pairs, q ∈ earlier ++ p :: later)
      (hpairs : ∀ q ∈ pairs, ¬q.joins x y = true) :
      (pairs.flatMap (candidates s.bodies)).filter (touches i j) = [] := by
    rw [List.filter_flatMap, List.flatMap_eq_nil_iff]
    exact fun q hq => (h.filter_candidates (hp (hsub q hq))).1 (Bool.not_eq_true _ ▸ hpairs q hq)
  obtain ⟨slots,hbetween,hfilter⟩ := (h.filter_candidates (hp (by simp))).2 hjoins
  have hcontests : (contests s.world.pairs s.bodies).filter (touches i j) = [slots] := by
    rw [contests, hpairs, List.flatMap_append, List.flatMap_cons, List.filter_append, List.filter_append,
      hfilter, hnone (by simp +contextual) hearlier,
      hnone (by simp +contextual) (List.filter_eq_nil_iff.mp hlater)]
    rfl
  obtain ⟨before,after,hsplit,hbefore,-,hafter⟩ := List.filter_eq_cons_iff.mp hcontests
  refine ⟨before,slots,after,hsplit,hbetween,fun other hother => ?_⟩
  rcases List.mem_append.mp hother with hmem | hmem
  · exact Bool.not_eq_true _ ▸ hbefore other hmem
  · exact Bool.not_eq_true _ ▸ List.filter_eq_nil_iff.mp hafter other hmem

/-- After the collisions of a frame two overlapping bodies have been pushed apart once, in the order in which
the pair names them. -/
theorem Meet.collide (h : s.Meet i j x y) (hoverlap : x.box.overlaps y.box = true) :
    ∃ x' y', s.collide.1.bodies[i]? = some x' ∧ s.collide.1.bodies[j]? = some y' ∧
      ((x',y') = Body.separate s.world.bounce x y ∨ (y',x') = Body.separate s.world.bounce y x) := by
  obtain ⟨before,slots,after,hsplit,hbetween,hothers⟩ := h.one_contest
  have hcollide : s.collide.1.bodies = after.foldl (contest s.world.bounce)
      (contest s.world.bounce (before.foldl (contest s.world.bounce) s.bodies) slots) := by
    rw [collide_bodies, hsplit, List.foldl_append, List.foldl_cons]
  have hframe {others : List (Nat × Nat)} (hsub : ∀ c ∈ others, c ∈ before ++ after) {k : Nat}
      (hk : k = i ∨ k = j) (bodies : Array Body) :
      (others.foldl (contest s.world.bounce) bodies)[k]? = bodies[k]? := by
    refine contests_frame fun other hother => ?_
    have huntouched := hothers other (hsub other hother)
    simp only [touches, Bool.or_eq_false_iff, decide_eq_false_iff_not] at huntouched
    rcases hk with rfl | rfl
    · exact ⟨huntouched.1.1,huntouched.2.1⟩
    · exact ⟨huntouched.1.2,huntouched.2.2⟩
  have hx : (before.foldl (contest s.world.bounce) s.bodies)[i]? = some x :=
    (hframe (by simp +contextual) (.inl rfl) _).trans h.first
  have hy : (before.foldl (contest s.world.bounce) s.bodies)[j]? = some y :=
    (hframe (by simp +contextual) (.inr rfl) _).trans h.second
  rw [hcollide, hframe (by simp +contextual) (.inl rfl), hframe (by simp +contextual) (.inr rfl)]
  rcases hbetween with rfl | rfl
  · obtain ⟨hi,hj⟩ := contest_slots h.distinct hx hy hoverlap
    exact ⟨_,_,hi,hj,.inl rfl⟩
  · obtain ⟨hj,hi⟩ := contest_slots h.distinct.symm hy hx ((Body.overlaps_comm x y).trans hoverlap)
    exact ⟨_,_,hi,hj,.inr rfl⟩

end Simulation

end Cartridge.Physics
