import Cartridge.Game.Instance
import Cartridge.Physics.Simulation
import Cartridge.Proofs.Nav.Place

/-! What the checks of single declarations ensure, and that they ask for no more. -/
namespace Cartridge

section steps

variable {ε α β : Type}

theorem bind_eq_ok {x : Except ε α} {f : α → Except ε β} {b : β} (h : x >>= f = .ok b) :
    ∃ a, x = .ok a ∧ f a = .ok b := by
  cases x with
  | error e => cases h
  | ok a => exact ⟨a,rfl,h⟩

/-- A computation goes on with what its first part yields. -/
theorem bind_of_ok {x : Except ε α} {f : α → Except ε β} {a : α} {r : Except ε β} (hx : x = .ok a)
    (hf : f a = r) : x >>= f = r := by
  rw [hx]
  exact hf

theorem mapM_of_ok {f : α → Except ε β} {g : α → β} {xs : List α} (h : ∀ x ∈ xs, f x = .ok (g x)) :
    xs.mapM f = .ok (xs.map g) := by
  induction xs with
  | nil => rfl
  | cons x xs ih =>
    obtain ⟨hx,hxs⟩ := List.forall_mem_cons.mp h
    rw [List.mapM_cons]
    exact bind_of_ok hx (bind_of_ok (ih hxs) rfl)

theorem forM_eq_ok {f : α → Except ε Unit} {xs : List α} (h : xs.forM f = .ok ()) :
    ∀ x ∈ xs, f x = .ok () := by
  induction xs with
  | nil => exact nofun
  | cons x xs ih =>
    obtain ⟨_,hx,hxs⟩ := bind_eq_ok h
    exact List.forall_mem_cons.mpr ⟨hx,ih hxs⟩

theorem forM_of_ok {ε α : Type} {f : α → Except ε Unit} {xs : List α} (h : ∀ x ∈ xs, f x = .ok ()) :
    xs.forM f = .ok () := by
  induction xs with
  | nil => rfl
  | cons x xs ih =>
    obtain ⟨hx,hxs⟩ := List.forall_mem_cons.mp h
    exact bind_of_ok hx (ih hxs)

end steps

theorem ArrayDecl.of_validate {a : ArrayDecl} (h : a.validate = .ok ()) :
    1 ≤ a.length ∧ a.init.length ≤ a.length.toNat := by
  rw [validate] at h
  split at h
  · cases h
  next hlength =>
    split at h
    · cases h
    next hinit =>
      refine ⟨UInt16.le_iff_toNat_le.mpr ?_,by omega⟩
      exact Nat.pos_of_ne_zero fun hz => hlength (UInt16.toNat_inj.mp hz)

theorem ArrayDecl.validate_eq {a : ArrayDecl} (hlength : 1 ≤ a.length) (hinit : a.init.length ≤ a.length.toNat) :
    a.validate = .ok () := by
  have hzero : a.length ≠ 0 := by
    intro h
    rw [h] at hlength
    exact absurd hlength (by decide)
  rw [validate, if_neg hzero, if_neg (by omega)]

theorem Physics.BodyDef.of_validate {b : BodyDef} (h : b.validate = .ok ()) :
    1 ≤ b.mass ∧ 0 ≤ b.maxVx.raw ∧ 0 ≤ b.maxVy.raw := by
  have hclamp {axis : Axis} {limit : Fixed} (h : b.checkClamp axis limit = .ok ()) :
      0 ≤ limit.raw := by
    rw [checkClamp] at h
    split at h
    · cases h
    next hlimit => exact Int16.not_lt.mp hlimit
  rw [validate] at h
  split at h
  · cases h
  next hmass =>
    obtain ⟨_,hx,hy⟩ := bind_eq_ok h
    refine ⟨UInt8.le_iff_toNat_le.mpr ?_,hclamp hx,hclamp hy⟩
    exact Nat.pos_of_ne_zero fun hz => hmass (UInt8.toNat_inj.mp hz)

theorem Physics.BodyDef.validate_eq {b : BodyDef} (hmass : 1 ≤ b.mass) (hx : 0 ≤ b.maxVx.raw) (hy : 0 ≤ b.maxVy.raw) :
    b.validate = .ok () := by
  have hzero : b.mass ≠ 0 := by
    intro h
    rw [h] at hmass
    exact absurd hmass (by decide)
  have hclamp {axis : Axis} {limit : Fixed} (h : 0 ≤ limit.raw) : b.checkClamp axis limit = .ok () := by
    rw [checkClamp, if_neg (Int16.not_lt.mpr h)]
  rw [validate, if_neg hzero]
  exact bind_of_ok (hclamp hx) (hclamp hy)

theorem Machine.of_validate {m : Machine} (h : m.validate = .ok ()) :
    m.initial ∈ m.states.map State.name ∧
      ∀ t ∈ m.transitions, t.source ∈ m.states.map State.name ∧
        t.target ∈ m.states.map State.name := by
  have hstate {name : String} {i : Nat} (h : m.stateIndex name = .ok i) :
      name ∈ m.states.map State.name := by
    rw [stateIndex] at h
    split at h
    next hfound =>
      have hsome : (m.states.findIdx? fun s => s.name = name).isSome := by rw [hfound]; rfl
      simpa [List.findIdx?_isSome] using hsome
    next => cases h
  obtain ⟨i,hinitial,htransitions⟩ := bind_eq_ok h
  refine ⟨hstate hinitial,fun t ht => ?_⟩
  obtain ⟨j,hsource,hrest⟩ := bind_eq_ok (forM_eq_ok htransitions t ht)
  cases htarget : m.stateIndex t.target with
  | error e => simp [htarget] at hrest
  | ok k => exact ⟨hstate hsource,hstate htarget⟩

theorem Machine.validate_eq {m : Machine} (hinitial : m.initial ∈ m.states.map State.name)
    (htransitions : ∀ t ∈ m.transitions, t.source ∈ m.states.map State.name ∧ t.target ∈ m.states.map State.name) :
    m.validate = .ok () := by
  have hstate {name : String} (h : name ∈ m.states.map State.name) : ∃ i, m.stateIndex name = .ok i := by
    have hsome : (m.states.findIdx? fun s => s.name = name).isSome := by
      simpa [List.findIdx?_isSome] using h
    obtain ⟨i,hi⟩ := Option.isSome_iff_exists.mp hsome
    exact ⟨i,by rw [stateIndex, hi]⟩
  obtain ⟨i,hi⟩ := hstate hinitial
  refine bind_of_ok hi (forM_of_ok fun t ht => ?_)
  obtain ⟨j,hj⟩ := hstate (htransitions t ht).1
  obtain ⟨k,hk⟩ := hstate (htransitions t ht).2
  exact bind_of_ok hj (bind_of_ok hk rfl)

theorem Nav.Grid.IsSized.exists_walkable {g : Grid} (hg : g.IsSized) (h : g.walkableCount ≠ 0) :
    ∃ t, g.isWalkable t = true := by
  rw [walkableCount_eq, ← Nat.pos_iff_ne_zero, List.countP_pos_iff] at h
  obtain ⟨i,hi,hbit⟩ := h
  have hlt : i < g.width.toNat * g.height.toNat := List.mem_range.mp hi
  have hx : i % g.width.toNat < g.width.toNat := Nat.mod_lt _ hg.width_pos
  have hy : i / g.width.toNat < g.height.toNat := Nat.div_lt_of_lt_mul hlt
  have hwidth := g.width.toNat_lt
  have hheight := g.height.toNat_lt
  have hx' : (g.tileAt i).x.toNat = i % g.width.toNat := by
    rw [tileAt, UInt8.toNat_ofNat', Nat.mod_eq_of_lt (by omega)]
  have hy' : (g.tileAt i).y.toNat = i / g.width.toNat := by
    rw [tileAt, UInt8.toNat_ofNat', Nat.mod_eq_of_lt (by omega)]
  have hindex : g.index (g.tileAt i) = i := by
    rw [index, hx', hy', Nat.mul_comm]
    exact Nat.div_add_mod i g.width.toNat
  refine ⟨g.tileAt i,?_⟩
  rw [isWalkable, Bool.and_eq_true, contains_iff, hx', hy', hindex]
  exact ⟨⟨hx,hy⟩,hbit⟩

theorem Nav.Grid.IsSized.walkableCount?_eq {g : Grid} (hg : g.IsSized) :
    g.walkableCount? = some g.walkableCount := by
  have hbits := hg.bits
  rw [byteCount] at hbits
  rw [walkableCount?, if_pos]
  simp only [tileCount]
  omega

theorem Nav.Grid.walkableCount_ne_zero {g : Grid} {t : Tile} (h : g.isWalkable t = true) : g.walkableCount ≠ 0 := by
  obtain ⟨hcontains,hbit⟩ := Bool.and_eq_true_iff.mp h
  rw [walkableCount_eq, ← Nat.pos_iff_ne_zero, List.countP_pos_iff]
  exact ⟨_,List.mem_range.mpr (index_lt hcontains),hbit⟩

end Cartridge
