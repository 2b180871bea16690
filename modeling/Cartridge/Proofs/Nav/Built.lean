import Cartridge.Proofs.Nav.Drawing

/-!
Grids as maps. A grid that was built blocked, open or from rows, and then changed by any calls on any tiles, is valid;
so every call finds its byte, and what it changes is what the grid shows of the tile it names.
-/
namespace Cartridge.Nav.Grid

variable {g g' : Grid} {width height : UInt8} {rows : List String}

def Shows (g : Grid) (t : Tile) (on : Bool) (w : UInt8) : Prop :=
  g.isWalkable? t = some on ∧ g.weight? t = some w

theorem IsSized.shows_iff (h : g.IsSized) {t : Tile} {on : Bool} {w : UInt8} :
    g.Shows t on w ↔ g.look t = (on,w) := by
  rw [Shows, h.isWalkable?_eq, h.weight?_eq, look, Prod.mk.injEq, Option.some.injEq, Option.some.injEq]

theorem blocked_eq_ok_iff :
    blocked width height = .ok g ↔ (1 ≤ width.toNat ∧ width.toNat ≤ maxGridEdge) ∧
      (1 ≤ height.toNat ∧ height.toNat ≤ maxGridEdge) ∧
        g = ⟨width,height,List.replicate (byteCount width height) 0,none⟩ := by
  have hzero (n : UInt8) : n = 0 ↔ n.toNat = 0 := UInt8.toNat_inj.symm
  rw [blocked]
  split_ifs with hedges
  · rw [hzero, hzero] at hedges
    exact iff_of_false (by simp) (by omega)
  · rw [hzero, hzero] at hedges
    rw [Except.ok.injEq, eq_comm]
    constructor
    · intro h
      exact ⟨by omega,by omega,h⟩
    · intro h
      exact h.2.2

theorem isSized_of_blocked (h : blocked width height = .ok g) : g.IsSized := by
  obtain ⟨hwidth,hheight,rfl⟩ := blocked_eq_ok_iff.mp h
  exact ⟨hwidth.1,hheight.1,hwidth.2,hheight.2,List.length_replicate,by simp⟩

theorem look_of_blocked (h : blocked width height = .ok g) (u : Tile) : g.look u = (false,1) := by
  obtain ⟨-,-,rfl⟩ := blocked_eq_ok_iff.mp h
  have hbyte (n : Nat) : (List.replicate (byteCount width height) (0 : UInt8)).getD n 0 = 0 := by
    rw [List.getD_eq_getElem?_getD, List.getElem?_replicate]
    split <;> rfl
  refine Prod.ext ?_ rfl
  change (_ && bit _ _) = false
  rw [bit_eq_getLsbD, hbyte]
  simp

/-- Setting bits one after another sets these bits, and nothing else. -/
theorem foldl_setBit (hg : g.IsSized) {is : List Nat} (his : ∀ i ∈ is, i < g.tileCount) :
    ∃ bytes, is.foldl (fun g i => g.setBit i true) g = { g with walkable := bytes } ∧
      ({ g with walkable := bytes } : Grid).IsSized ∧
        ∀ j, ({ g with walkable := bytes } : Grid).bit j = (decide (j ∈ is) || g.bit j) := by
  induction is generalizing g with
  | nil => exact ⟨g.walkable,rfl,hg,by simp⟩
  | cons i is ih =>
    obtain ⟨hi,his⟩ := List.forall_mem_cons.mp his
    obtain ⟨bytes,hfold,hsized,hbits⟩ := ih (isSized_setBit hg i true) his
    refine ⟨bytes,hfold,hsized,fun j => (hbits j).trans ?_⟩
    rw [bit_setBit (hg.hasBit_of_lt hi)]
    by_cases hj : j = i <;> simp [hj]

theorem look_of_opened (h : opened width height = .ok g) :
    g.IsSized ∧ ∀ u, g.look u = (g.contains u,1) := by
  obtain ⟨g₀,hblocked,hfold⟩ := bind_eq_ok h
  have hrange : ∀ i ∈ List.range g₀.tileCount, i < g₀.tileCount := fun i hi => List.mem_range.mp hi
  obtain ⟨bytes,hbytes,hsized,hbits⟩ := foldl_setBit (isSized_of_blocked hblocked) hrange
  obtain rfl : { g₀ with walkable := bytes } = g := hbytes.symm.trans (Except.ok.inj hfold)
  have hweight (u : Tile) : g₀.weight u = 1 := congrArg Prod.snd (look_of_blocked hblocked u)
  refine ⟨hsized,fun u => Prod.ext ?_ (hweight u)⟩
  change (g₀.contains u && _) = g₀.contains u
  rw [hbits]
  cases hu : g₀.contains u with
  | false => rfl
  | true =>
    have hmem : g₀.index u ∈ List.range g₀.tileCount := List.mem_range.mpr (index_lt hu)
    change (decide (g₀.index u ∈ List.range g₀.tileCount) || _) = true
    rw [decide_eq_true hmem, Bool.true_or]

/-- Rows that can be drawn: between 1 and 32 of them, of one length between 1 and 32, and of characters that name
something. -/
def IsDrawing (rows : List String) : Prop :=
  (1 ≤ rows.length ∧ rows.length ≤ 32) ∧ ∃ width, (1 ≤ width ∧ width ≤ 32) ∧
    ∀ row ∈ rows, row.length = width ∧ ∀ c ∈ row.toList, ∃ on w, Names c on w

/-- Rows are put on a blocked grid of their size. -/
theorem ofRows_eq_ok_iff :
    ofRows rows = .ok g ↔ ∃ g₀, g₀.height.toNat = rows.length ∧
      g₀.width.toNat = (rows.head?.map String.length).getD 0 ∧
        blocked g₀.width g₀.height = .ok g₀ ∧ g₀.putRows 0 rows = .ok g := by
  have hword (n : Nat) : (UInt8.ofNat n).toNat = n % 256 := UInt8.toNat_ofNat'
  rw [ofRows]
  generalize (rows.head?.map String.length).getD 0 = width
  constructor
  · intro h
    split_ifs at h with hheight hwidth
    obtain ⟨g₀,hblocked,hput⟩ := bind_eq_ok h
    obtain ⟨-,-,hg₀⟩ := blocked_eq_ok_iff.mp hblocked
    have hw : g₀.width = .ofNat width := by rw [hg₀]
    have hh : g₀.height = .ofNat rows.length := by rw [hg₀]
    refine ⟨g₀,?_,?_,by rwa [hw, hh],hput⟩
    · rw [hh, hword]
      omega
    · rw [hw, hword]
      omega
  · rintro ⟨g₀,hh,rfl,hblocked,hput⟩
    have hheight := g₀.height.toNat_lt
    have hwidth := g₀.width.toNat_lt
    rw [if_neg (by omega), if_neg (by omega), ← hh, UInt8.ofNat_toNat, UInt8.ofNat_toNat]
    exact bind_of_ok hblocked hput

/-- Rows are drawn if they can be, and then every tile is what its character names. -/
theorem draws_ofRows (h : ofRows rows = .ok g) :
    g.IsSized ∧ g.height.toNat = rows.length ∧ (∀ row ∈ rows, row.length = g.width.toNat) ∧
      ∀ t, g.contains t = true → ∃ c on w, charAt? rows t = some c ∧ Names c on w ∧ g.look t = (on,w) := by
  obtain ⟨g₀,hheight,-,hblocked,hput⟩ := ofRows_eq_ok_iff.mp h
  have hsized := isSized_of_blocked hblocked
  have hfresh : g₀.IsFresh (rowsFrom? rows 0) := fun u _ _ => congrArg Prod.snd (look_of_blocked hblocked u)
  have hdraws := draws_putRows hsized (by omega) hfresh hput
  have hrows := exists_putRows_iff.mp ⟨g,hput⟩
  rw [← hdraws.height] at hheight
  rw [← hdraws.width] at hrows
  refine ⟨hdraws.sized,hheight,fun row hrow => (hrows row hrow).1,fun t ht => ?_⟩
  obtain ⟨hx,hy⟩ := contains_iff.mp ht
  obtain ⟨row,hrow⟩ : ∃ row, rows[t.y.toNat]? = some row := ⟨_,List.getElem?_eq_getElem (by omega)⟩
  have hlength := (hrows row (List.mem_of_getElem? hrow)).1
  rw [← String.length_toList] at hlength
  obtain ⟨c,hc⟩ : ∃ c, row.toList[t.x.toNat]? = some c := ⟨_,List.getElem?_eq_getElem (by omega)⟩
  have hat : charAt? rows t = some c := by
    simp only [charAt?, hrow, Option.bind_eq_bind, Option.bind_some, hc]
  obtain ⟨on,w,hnames,hlook⟩ := hdraws.drawn t c hat
  exact ⟨c,on,w,hat,hnames,hlook⟩

theorem exists_ofRows_iff : (∃ g, ofRows rows = .ok g) ↔ IsDrawing rows := by
  constructor
  · rintro ⟨g,h⟩
    obtain ⟨g₀,hheight,-,hblocked,hput⟩ := ofRows_eq_ok_iff.mp h
    obtain ⟨hw,hh,-⟩ := blocked_eq_ok_iff.mp hblocked
    exact ⟨hheight ▸ hh,g₀.width.toNat,hw,exists_putRows_iff.mp ⟨g,hput⟩⟩
  · rintro ⟨hheight,width,hwidth,hrows⟩
    have hhead : (rows.head?.map String.length).getD 0 = width := by
      cases rows with
      | nil => simp at hheight
      | cons row rows => exact (hrows row List.mem_cons_self).1
    have hword {n : Nat} (hn : n ≤ 32) : (UInt8.ofNat n).toNat = n := by
      rw [UInt8.toNat_ofNat']
      omega
    let bytes := byteCount (.ofNat width) (.ofNat rows.length)
    let g₀ : Grid := ⟨.ofNat width,.ofNat rows.length,List.replicate bytes 0,none⟩
    have hw : g₀.width.toNat = width := hword hwidth.2
    have hh : g₀.height.toNat = rows.length := hword hheight.2
    have hblocked : blocked g₀.width g₀.height = .ok g₀ :=
      blocked_eq_ok_iff.mpr ⟨hw.symm ▸ hwidth,hh.symm ▸ hheight,rfl⟩
    obtain ⟨g,hput⟩ : ∃ g, g₀.putRows 0 rows = .ok g :=
      exists_putRows_iff.mpr fun row hrow => hw.symm ▸ hrows row hrow
    exact ⟨g,ofRows_eq_ok_iff.mpr ⟨g₀,hh,hw.trans hhead.symm,hblocked,hput⟩⟩

/-- A grid that was built and then changed call by call. -/
inductive Built : Grid → Prop
  | blocked {width height : UInt8} {g : Grid} (h : blocked width height = .ok g) : Built g
  | opened {width height : UInt8} {g : Grid} (h : opened width height = .ok g) : Built g
  | drawn {rows : List String} {g : Grid} (h : ofRows rows = .ok g) : Built g
  | setWalkable {g g' : Grid} {t : Tile} {on : Bool} (h : Built g) (hset : g.setWalkable? t on = some g') : Built g'
  | setWeight {g g' : Grid} {t : Tile} {w : UInt8} (h : Built g) (hset : g.setWeight? t w = some g') : Built g'

theorem Built.isSized (h : g.Built) : g.IsSized := by
  induction h with
  | blocked h => exact isSized_of_blocked h
  | opened h => exact (look_of_opened h).1
  | drawn h => exact (draws_ofRows h).1
  | setWalkable _ hset ih =>
    rw [ih.setWalkable?_eq] at hset
    cases hset
    exact ih.isSized_setWalkable _ _
  | setWeight _ hset ih =>
    rw [ih.setWeight?_eq] at hset
    cases hset
    exact ih.isSized_setWeight _ _

/-- A grid that was built in any way and changed by any calls is valid and shows every tile. Opening or blocking a
tile of it changes the bit of this tile alone, writing a weight its weight and its bit, and calls outside the grid
change nothing. Rows are drawn if they can be, and then each tile is what its character names. -/
theorem built_grid_is_map :
    (∀ g, Built g → g.validate = .ok () ∧ (∀ u, ∃ on w, g.Shows u on w) ∧
      (∀ t on, ∃ g', g.setWalkable? t on = some g' ∧ (g.contains t = false → g' = g) ∧
        (g.contains t = true → ∀ u on' w, g.Shows u on' w → g'.Shows u (if u = t then on else on') w)) ∧
      ∀ t w, ∃ g', g.setWeight? t w = some g' ∧ (g.contains t = false → g' = g) ∧
        (g.contains t = true → ∀ u on w', g.Shows u on w' →
          g'.Shows u (if u = t then decide (w ≠ 0) else on) (if u = t then w else w'))) ∧
    (∀ width height g, (blocked width height = .ok g → ∀ u, g.Shows u false 1) ∧
      (opened width height = .ok g → ∀ u, g.Shows u (g.contains u) 1)) ∧
    ∀ rows, ((∃ g, ofRows rows = .ok g) ↔ IsDrawing rows) ∧
      ∀ g, ofRows rows = .ok g → g.height.toNat = rows.length ∧ (∀ row ∈ rows, row.length = g.width.toNat) ∧
        ∀ t, g.contains t = true → ∃ c on w, charAt? rows t = some c ∧ Names c on w ∧ g.Shows t on w := by
  refine ⟨fun g hbuilt => ?_,fun width height g => ⟨fun h u => ?_,fun h u => ?_⟩,
    fun rows => ⟨exists_ofRows_iff,fun g h => ?_⟩⟩
  · have hg := hbuilt.isSized
    refine ⟨hg.validate_eq,fun u => ⟨_,_,hg.shows_iff.mpr rfl⟩,fun t on => ?_,fun t w => ?_⟩
    · refine ⟨_,hg.setWalkable?_eq t on,fun ht => ?_,fun ht u on' w hu => ?_⟩
      · rw [setWalkable, if_neg (by simp [ht])]
      · have hlook := hg.shows_iff.mp hu
        rw [(hg.isSized_setWalkable t on).shows_iff, hg.look_setWalkable ht, hlook]
        have hweight : g.weight u = w := congrArg Prod.snd hlook
        rw [hweight]
        split_ifs <;> rfl
    · refine ⟨_,hg.setWeight?_eq t w,fun ht => ?_,fun ht u on w' hu => ?_⟩
      · rw [setWeight, if_neg (by simp [ht])]
      · rw [(hg.isSized_setWeight t w).shows_iff, hg.look_setWeight ht, hg.shows_iff.mp hu]
        split_ifs <;> rfl
  · rw [(isSized_of_blocked h).shows_iff, look_of_blocked h]
  · obtain ⟨hg,hlook⟩ := look_of_opened h
    rw [hg.shows_iff, hlook]
  · obtain ⟨hg,hheight,hrows,htiles⟩ := draws_ofRows h
    refine ⟨hheight,hrows,fun t ht => ?_⟩
    obtain ⟨c,on,w,hat,hnames,hlook⟩ := htiles t ht
    exact ⟨c,on,w,hat,hnames,hg.shows_iff.mpr hlook⟩

def ridgeGrid : Grid where
  width := 10
  height := 2
  walkable := [0xEF, 0xEF, 0x0F]

theorem ridgeGrid_is_map :
    ofRows ["....#.....", "..#......."] = .ok ridgeGrid ∧
      ∃ g', ridgeGrid.setWeight? ⟨0,1⟩ 0 = some g' ∧ g'.Shows ⟨0,1⟩ false 0 ∧ g'.Shows ⟨9,0⟩ true 1 := by
  have hdrawn : ofRows ["....#.....", "..#......."] = .ok ridgeGrid := by decide
  obtain ⟨-,-,-,hweight⟩ := built_grid_is_map.1 ridgeGrid (.drawn hdrawn)
  obtain ⟨g',hg',-,hinside⟩ := hweight ⟨0,1⟩ 0
  have hcontains : ridgeGrid.contains ⟨0,1⟩ = true := by decide
  have hfirst : ridgeGrid.Shows ⟨0,1⟩ true 1 := ⟨by decide,by decide⟩
  have hlast : ridgeGrid.Shows ⟨9,0⟩ true 1 := ⟨by decide,by decide⟩
  exact ⟨hdrawn,g',hg',hinside hcontains _ _ _ hfirst,hinside hcontains _ _ _ hlast⟩

end Cartridge.Nav.Grid
