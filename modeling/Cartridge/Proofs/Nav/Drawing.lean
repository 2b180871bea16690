import Cartridge.Proofs.Game.Valid
import Cartridge.Proofs.Nav.Change

/-!
Grids drawn by rows of characters. Each character writes its own tile and leaves the others, so that after all rows
every tile is what its character names. Together with what single changes do, a grid that was built in any way and
changed in any way is a map from tiles to bits and weights.
-/
namespace Cartridge.Nav.Grid

/-- What a character names: an open tile, a blocked one, or an open one with a weight. -/
inductive Names : Char → Bool → UInt8 → Prop
  | opened : Names '.' true 1
  | blocked : Names '#' false 1
  | weighted {d : Nat} (h : 1 ≤ d ∧ d ≤ 9) : Names d.digitChar true (.ofNat d)

def charAt? (rows : List String) (t : Tile) : Option Char := do
  let row ← rows[t.y.toNat]?
  row.toList[t.x.toNat]?

/-- A digit other than zero. -/
private theorem digit_iff (c : Char) :
    ('1' ≤ c ∧ c ≤ '9') ↔ ∃ d, (1 ≤ d ∧ d ≤ 9) ∧ c = Nat.digitChar d ∧ c.toNat - '0'.toNat = d := by
  have hone : '1' ≤ c ↔ 49 ≤ c.toNat := Iff.rfl
  have hnine : c ≤ '9' ↔ c.toNat ≤ 57 := Iff.rfl
  have hzero : '0'.toNat = 48 := rfl
  rw [hone, hnine, hzero]
  constructor
  · rintro ⟨hle,hge⟩
    refine ⟨c.toNat - 48,by omega,?_,rfl⟩
    apply Char.toNat_inj.mp
    rw [Nat.toNat_digitChar_of_lt_ten (by omega)]
    omega
  · rintro ⟨d,hd,rfl,-⟩
    rw [Nat.toNat_digitChar_of_lt_ten (by omega)]
    omega

section put

variable {g g' : Grid} {x y : Nat} {c : Char} {cs : List Char} {row : String} {rows : List String}

/-- Putting a character is one change of its tile. -/
theorem putChar_cases (h : g.putChar x y c = .ok g') :
    (∃ on, Names c on 1 ∧ g' = g.setWalkable ⟨.ofNat x,.ofNat y⟩ on) ∨
      ∃ w, Names c true w ∧ w ≠ 0 ∧ g' = g.setWeight ⟨.ofNat x,.ofNat y⟩ w := by
  rw [putChar] at h
  split_ifs at h with hdot hhash hdigit
  · cases h
    exact .inl ⟨true,hdot ▸ .opened,rfl⟩
  · cases h
    exact .inl ⟨false,hhash ▸ .blocked,rfl⟩
  · cases h
    obtain ⟨d,hd,hc,hweight⟩ := (digit_iff c).mp hdigit
    refine .inr ⟨.ofNat d,hc ▸ .weighted hd,?_,by rw [hweight]⟩
    rw [ne_eq, ← UInt8.toNat_inj, UInt8.toNat_ofNat', UInt8.toNat_zero]
    omega

theorem edges_putChar (h : g.putChar x y c = .ok g') : g'.width = g.width ∧ g'.height = g.height := by
  rcases putChar_cases h with ⟨on,-,rfl⟩ | ⟨w,-,-,rfl⟩
  · exact ⟨width_setWalkable g _ on,height_setWalkable g _ on⟩
  · exact ⟨width_setWeight g _ w,height_setWeight g _ w⟩

theorem width_putChars (h : g.putChars x y cs = .ok g') : g'.width = g.width := by
  induction cs generalizing g x with
  | nil =>
    cases h
    rfl
  | cons c cs ih =>
    obtain ⟨g₁,hfirst,hrest⟩ := bind_eq_ok h
    exact (ih hrest).trans (edges_putChar hfirst).1

/-- A character can be put anywhere if it names something. -/
theorem exists_putChar_iff : (∃ g', g.putChar x y c = .ok g') ↔ ∃ on w, Names c on w := by
  constructor
  · rintro ⟨g',h⟩
    rcases putChar_cases h with ⟨on,hnames,-⟩ | ⟨w,hnames,-⟩
    · exact ⟨on,1,hnames⟩
    · exact ⟨true,w,hnames⟩
  · rintro ⟨on,w,hnames⟩
    rw [putChar]
    cases hnames with
    | opened => exact ⟨_,rfl⟩
    | blocked => exact ⟨_,rfl⟩
    | @weighted d hd =>
      have hdigit : '1' ≤ d.digitChar ∧ d.digitChar ≤ '9' := by
        refine (digit_iff _).mpr ⟨d,hd,rfl,?_⟩
        rw [Nat.toNat_digitChar_of_lt_ten (by omega)]
        change 48 + d - 48 = d
        omega
      split_ifs
      · exact ⟨_,rfl⟩
      · exact ⟨_,rfl⟩
      · exact ⟨_,rfl⟩

theorem exists_putChars_iff :
    (∃ g', g.putChars x y cs = .ok g') ↔ ∀ c ∈ cs, ∃ on w, Names c on w := by
  induction cs generalizing g x with
  | nil => simp [putChars]
  | cons c cs ih =>
    rw [List.forall_mem_cons, putChars]
    constructor
    · rintro ⟨g',h⟩
      obtain ⟨g₁,hfirst,hrest⟩ := bind_eq_ok h
      exact ⟨exists_putChar_iff.mp ⟨g₁,hfirst⟩,ih.mp ⟨g',hrest⟩⟩
    · rintro ⟨hc,hcs⟩
      obtain ⟨g₁,hfirst⟩ := exists_putChar_iff.mpr hc
      obtain ⟨g',hrest⟩ := ih.mpr hcs
      exact ⟨g',bind_of_ok hfirst hrest⟩

/-- Rows can be put if they are as long as the grid is wide and every character names something. -/
theorem exists_putRows_iff :
    (∃ g', g.putRows y rows = .ok g') ↔
      ∀ row ∈ rows, row.length = g.width.toNat ∧ ∀ c ∈ row.toList, ∃ on w, Names c on w := by
  induction rows generalizing g y with
  | nil => simp [putRows]
  | cons row rows ih =>
    rw [List.forall_mem_cons, putRows]
    constructor
    · rintro ⟨g',h⟩
      split_ifs at h with hlength
      obtain ⟨g₁,hfirst,hrest⟩ := bind_eq_ok h
      have hrows := ih.mp ⟨g',hrest⟩
      rw [width_putChars hfirst] at hrows
      exact ⟨⟨hlength,exists_putChars_iff.mp ⟨g₁,hfirst⟩⟩,hrows⟩
    · rintro ⟨⟨hlength,hcs⟩,hrows⟩
      obtain ⟨g₁,hfirst⟩ := exists_putChars_iff.mpr hcs
      rw [← width_putChars hfirst] at hrows
      obtain ⟨g',hrest⟩ := ih.mpr hrows
      exact ⟨g',(if_pos hlength).trans (bind_of_ok hfirst hrest)⟩

end put

/-- A drawing: tiles for which there is a character are what it names, and the others are as before. -/
structure Draws (charAt : Tile → Option Char) (g g' : Grid) : Prop where
  sized : g'.IsSized
  width : g'.width = g.width
  height : g'.height = g.height
  drawn : ∀ u c, charAt u = some c → ∃ on w, Names c on w ∧ g'.look u = (on,w)
  rest : ∀ u, charAt u = none → g'.look u = g.look u

def IsFresh (g : Grid) (charAt : Tile → Option Char) : Prop :=
  ∀ u c, charAt u = some c → g.weight u = 1

namespace Draws

variable {first second both : Tile → Option Char} {g g' g'' : Grid}

/-- Without characters nothing is drawn. -/
theorem refl (hg : g.IsSized) (hnone : ∀ u, first u = none) : Draws first g g :=
  ⟨hg,rfl,rfl,fun u c hc => (by simp [hnone] at hc),fun u _ => rfl⟩

/-- One drawing after another, on other tiles. -/
theorem trans (h : Draws first g g') (h' : Draws second g' g'')
    (hboth : ∀ u, both u = (first u).or (second u)) (hapart : ∀ u, first u = none ∨ second u = none) :
    Draws both g g'' where
  sized := h'.sized
  width := h'.width.trans h.width
  height := h'.height.trans h.height
  drawn u c hc := by
    rw [hboth] at hc
    cases hfirst : first u with
    | none =>
      rw [hfirst, Option.none_or] at hc
      exact h'.drawn u c hc
    | some a =>
      have hsecond := (hapart u).resolve_left (by simp [hfirst])
      rw [hfirst, Option.some_or] at hc
      rw [h'.rest u hsecond]
      exact h.drawn u c (hfirst.trans hc)
  rest u hu := by
    rw [hboth, Option.or_eq_none_iff] at hu
    rw [h'.rest u hu.2, h.rest u hu.1]

theorem isFresh (h : Draws first g g') (hfresh : g.IsFresh both)
    (hboth : ∀ u, both u = (first u).or (second u)) (hapart : ∀ u, first u = none ∨ second u = none) :
    g'.IsFresh second := by
  intro u c hc
  have hfirst : first u = none := (hapart u).resolve_right (by simp [hc])
  have hweight : g'.weight u = g.weight u := congrArg Prod.snd (h.rest u hfirst)
  exact hweight.trans (hfresh u c (by rw [hboth, hfirst, hc, Option.none_or]))

end Draws

/-- The member at a place of a list whose first member has a place of its own. -/
def from? {α : Type} (as : List α) (first i : Nat) : Option α :=
  if first ≤ i then as[i - first]? else none

theorem from?_zero {α : Type} (as : List α) (i : Nat) : from? as 0 i = as[i]? := rfl

theorem from?_of_lt {α : Type} (as : List α) {first i : Nat} (h : i < first) : from? as first i = none :=
  if_neg (by omega)

theorem from?_cons {α : Type} (a : α) (as : List α) (first i : Nat) :
    from? (a :: as) first i = if i = first then some a else from? as (first + 1) i := by
  by_cases he : i = first
  · simp [from?, he]
  · by_cases hlt : first < i
    · obtain ⟨k,rfl⟩ : ∃ k, i = first + 1 + k := ⟨i - (first + 1),by omega⟩
      have hsub : first + 1 + k - first = k + 1 := by omega
      simp [from?, he, hsub, Nat.le_of_lt hlt]
    · rw [if_neg he, from?_of_lt as (by omega), from?_of_lt (a :: as) (by omega)]

def rowFrom? (cs : List Char) (x y : Nat) (u : Tile) : Option Char :=
  if u.y.toNat = y then from? cs x u.x.toNat else none

def rowsFrom? (rows : List String) (y : Nat) (u : Tile) : Option Char := do
  let row ← from? rows y u.y.toNat
  row.toList[u.x.toNat]?

private theorem tile_eq_iff {x y : Nat} (hx : x < 256) (hy : y < 256) (u : Tile) :
    u = ⟨.ofNat x,.ofNat y⟩ ↔ u.x.toNat = x ∧ u.y.toNat = y := by
  obtain ⟨ux,uy⟩ := u
  rw [Tile.mk.injEq, ← UInt8.toNat_inj, ← UInt8.toNat_inj, UInt8.toNat_ofNat', UInt8.toNat_ofNat',
    Nat.mod_eq_of_lt hx, Nat.mod_eq_of_lt hy]

/-- The first character of a row is that of its own tile, and the others are those of other tiles. -/
private theorem rowFrom?_cons {x y : Nat} (hx : x < 256) (hy : y < 256) (c : Char) (cs : List Char) (u : Tile) :
    rowFrom? (c :: cs) x y u =
        (if u = ⟨.ofNat x,.ofNat y⟩ then some c else none).or (rowFrom? cs (x + 1) y u) ∧
      ((if u = ⟨.ofNat x,.ofNat y⟩ then some c else none) = none ∨ rowFrom? cs (x + 1) y u = none) := by
  simp only [rowFrom?, from?_cons, tile_eq_iff hx hy]
  by_cases hux : u.x.toNat = x
  · have hlater : from? cs (x + 1) u.x.toNat = none := from?_of_lt cs (by omega)
    simp [hux, hux ▸ hlater]
  · simp [hux]

/-- The first row holds the characters of its own tiles, and the others those of other tiles. -/
private theorem rowsFrom?_cons (row : String) (rows : List String) (y : Nat) (u : Tile) :
    rowsFrom? (row :: rows) y u = (rowFrom? row.toList 0 y u).or (rowsFrom? rows (y + 1) u) ∧
      (rowFrom? row.toList 0 y u = none ∨ rowsFrom? rows (y + 1) u = none) := by
  simp only [rowsFrom?, rowFrom?, from?_cons, from?_zero]
  by_cases huy : u.y.toNat = y
  · have hlater : from? rows (y + 1) u.y.toNat = none := from?_of_lt rows (by omega)
    simp [huy, huy ▸ hlater]
  · simp [huy]

section put

variable {g g' : Grid} {x y : Nat} {cs : List Char} {rows : List String}

theorem draws_putChar {c : Char} (hg : g.IsSized) {t : Tile} (ht : g.contains t = true) (hfresh : g.weight t = 1)
    (hput : t = ⟨.ofNat x,.ofNat y⟩) (h : g.putChar x y c = .ok g') :
    Draws (fun u => if u = t then some c else none) g g' := by
  subst hput
  have edges := edges_putChar h
  rcases putChar_cases h with ⟨on,hnames,rfl⟩ | ⟨w,hnames,hw,rfl⟩
  · refine ⟨hg.isSized_setWalkable _ on,edges.1,edges.2,fun u a hu => ?_,fun u hu => ?_⟩
    · split_ifs at hu with he
      cases hu
      exact ⟨on,1,hnames,by rw [hg.look_setWalkable ht, if_pos he, he, hfresh]⟩
    · split_ifs at hu with he
      rw [hg.look_setWalkable ht, if_neg he]
  · refine ⟨hg.isSized_setWeight _ w,edges.1,edges.2,fun u a hu => ?_,fun u hu => ?_⟩
    · split_ifs at hu with he
      cases hu
      exact ⟨true,w,hnames,by rw [hg.look_setWeight ht, if_pos he, decide_eq_true hw]⟩
    · split_ifs at hu with he
      rw [hg.look_setWeight ht, if_neg he]

/-- The characters of a row are put one behind the other. -/
theorem draws_putChars (hg : g.IsSized) (hy : y < g.height.toNat) (hx : x + cs.length ≤ g.width.toNat)
    (hfresh : g.IsFresh (rowFrom? cs x y)) (h : g.putChars x y cs = .ok g') :
    Draws (rowFrom? cs x y) g g' := by
  induction cs generalizing g x with
  | nil =>
    cases h
    exact .refl hg fun u => by simp [rowFrom?, from?]
  | cons c cs ih =>
    obtain ⟨g₁,hput,hrest⟩ := bind_eq_ok h
    rw [List.length_cons] at hx
    have hwidth := g.width.toNat_lt
    have hheight := g.height.toNat_lt
    have ht : g.contains ⟨.ofNat x,.ofNat y⟩ = true := by
      obtain ⟨htx,hty⟩ := (tile_eq_iff (x := x) (y := y) (by omega) (by omega) _).mp rfl
      rw [contains_iff, htx, hty]
      omega
    have hsplit := rowFrom?_cons (x := x) (y := y) (by omega) (by omega) c cs
    have hone : g.weight ⟨.ofNat x,.ofNat y⟩ = 1 :=
      hfresh _ c (by rw [(hsplit _).1, if_pos rfl, Option.some_or])
    have hfirst := draws_putChar hg ht hone rfl hput
    have hthen := ih hfirst.sized (hfirst.height ▸ hy) (by rw [hfirst.width]; omega)
      (hfirst.isFresh hfresh (fun u => (hsplit u).1) fun u => (hsplit u).2) hrest
    exact hfirst.trans hthen (fun u => (hsplit u).1) fun u => (hsplit u).2

/-- Rows are put one below the other. -/
theorem draws_putRows (hg : g.IsSized) (hy : y + rows.length ≤ g.height.toNat)
    (hfresh : g.IsFresh (rowsFrom? rows y)) (h : g.putRows y rows = .ok g') :
    Draws (rowsFrom? rows y) g g' := by
  induction rows generalizing g y with
  | nil =>
    cases h
    exact .refl hg fun u => by simp [rowsFrom?, from?]
  | cons row rows ih =>
    rw [putRows] at h
    split_ifs at h with hlength
    obtain ⟨g₁,hput,hrest⟩ := bind_eq_ok h
    rw [List.length_cons] at hy
    have hsplit := rowsFrom?_cons row rows y
    have hrow : g.IsFresh (rowFrom? row.toList 0 y) := by
      intro u c hc
      exact hfresh u c (by rw [(hsplit u).1, hc, Option.some_or])
    have hfirst := draws_putChars hg (by omega) (by rw [String.length_toList]; omega) hrow hput
    have hthen := ih hfirst.sized (by rw [hfirst.height]; omega)
      (hfirst.isFresh hfresh (fun u => (hsplit u).1) fun u => (hsplit u).2) hrest
    exact hfirst.trans hthen (fun u => (hsplit u).1) fun u => (hsplit u).2

end put

end Cartridge.Nav.Grid
