import Cartridge.Proofs.Code.Row

/-!
How many lines items take. A page has room for as many as 32 bits count, and a place that is recorded takes
the number of the line behind it, whether or not there is one.
-/
namespace Cartridge.Code

open Page (maxLines)

theorem Page.length_rows_le (p : Page) : p.rows.length ≤ maxLines.toNat := by
  rw [← p.counted]
  exact Nat.le_of_lt_succ p.lineCount.toNat_lt

theorem Page.lineCount_lt_iff {p : Page} : p.lineCount < maxLines ↔ p.rows.length < maxLines.toNat := by
  rw [UInt32.lt_iff_toNat_lt, p.counted]

namespace Stroke

def isLine : Stroke → Bool
  | .line _ => true
  | .indent | .dedent => false

variable {p q : Page} {s : Stroke} {strokes : List Stroke}

theorem length_rows_write (h : s.write? p = some q) : q.rows.length = p.rows.length + s.isLine.toNat := by
  cases s with
  | line text =>
    rw [(Page.line?_eq_some h).1]
    rfl
  | indent | dedent => cases h; rfl

theorem isSome_write_iff : (s.write? p).isSome ↔ p.rows.length + s.isLine.toNat ≤ maxLines.toNat := by
  cases s with
  | line text =>
    rw [write?, Page.line?, isLine, Bool.toNat_true, Nat.succ_le_iff, ← Page.lineCount_lt_iff]
    split <;> simp_all
  | indent | dedent => exact iff_of_true rfl p.length_rows_le

theorem countP_isLine_cons (s : Stroke) (strokes : List Stroke) :
    (s :: strokes).countP isLine = s.isLine.toNat + strokes.countP isLine := by
  rw [List.countP_cons, Nat.add_comm]
  cases s.isLine <;> rfl

theorem length_rows_writeAll (h : strokes.foldlM write? p = some q) :
    q.rows.length = p.rows.length + strokes.countP isLine := by
  induction strokes generalizing p with
  | nil => cases h; rfl
  | cons s strokes ih =>
    obtain ⟨r,hr,hq⟩ := foldlM_cons_eq_some.mp h
    rw [ih hq, length_rows_write hr, countP_isLine_cons, Nat.add_assoc]

theorem isSome_writeAll_iff :
    (strokes.foldlM write? p).isSome ↔ p.rows.length + strokes.countP isLine ≤ maxLines.toNat := by
  induction strokes generalizing p with
  | nil => exact iff_of_true rfl p.length_rows_le
  | cons s strokes ih =>
    rw [List.foldlM_cons, countP_isLine_cons]
    have hs := isSome_write_iff (p := p) (s := s)
    cases hr : s.write? p with
    | none =>
      rw [hr] at hs
      have hfull := hs.not.mp (by simp)
      exact iff_of_false (by simp) (by omega)
    | some r =>
      have hlength := length_rows_write hr
      refine ih.trans ?_
      rw [hlength, Nat.add_assoc]

end Stroke

def Mark.height : Mark → Nat
  | .line _ | .blank | .block _ | .close _ | .reopen _ => 1
  | .lines text => (Text.lines text).length
  | .indent | .dedent => 0

theorem Mark.countP_strokes (m : Mark) : m.strokes.countP Stroke.isLine = m.height := by
  cases m with
  | lines text => simp [strokes, height, List.countP_map, Function.comp_def, Stroke.isLine]
  | _ => rfl

def Item.height : Item → Nat
  | .mark m => m.height
  | .banner | .endFunction => 2
  | .problem .. | .beginFunction _ => 1
  | .enter _ | .origin _ => 0

theorem Item.countP_strokes (current : Section) (i : Item) :
    (i.strokes current).countP Stroke.isLine = i.height := by
  cases i with
  | mark m => simpa [strokes, marks, height] using m.countP_strokes
  | _ => rfl

def height : List Item → Nat
  | [] => 0
  | i :: items => i.height + height items

attribute [simp] Item.height Mark.height

@[simp] theorem height_nil : height [] = 0 := rfl

@[simp] theorem height_cons (i : Item) (items : List Item) : height (i :: items) = i.height + height items := rfl

@[simp] theorem height_append (items items' : List Item) :
    height (items ++ items') = height items + height items' := by
  induction items with
  | nil => exact (Nat.zero_add _).symm
  | cons i items ih => rw [List.cons_append, height_cons, height_cons, ih, Nat.add_assoc]

theorem height_eq_zero {items : List Item} (h : ∀ i ∈ items, i.height = 0) : height items = 0 := by
  induction items with
  | nil => rfl
  | cons i items ih =>
    obtain ⟨hi,hitems⟩ := List.forall_mem_cons.mp h
    rw [height_cons, hi, ih hitems]

/-- The greatest number of a line that is written, or that a place is recorded for. -/
def linesNeeded (mapped : Bool) : List Item → Nat
  | [] => 0
  | .origin _ :: items =>
    if mapped then max 1 (linesNeeded mapped items) else linesNeeded mapped items
  | i :: items => i.height + linesNeeded mapped items

@[simp] theorem linesNeeded_origin_mapped (l : Location) (items : List Item) :
    linesNeeded true (.origin l :: items) = max 1 (linesNeeded true items) := rfl

@[simp] theorem linesNeeded_origin_unmapped (l : Location) (items : List Item) :
    linesNeeded false (.origin l :: items) = linesNeeded false items := rfl

theorem linesNeeded_cons (mapped : Bool) (i : Item) (items : List Item) :
    linesNeeded mapped (i :: items) =
      max (linesNeeded mapped [i]) (i.height + linesNeeded mapped items) := by
  cases i with
  | origin l => cases mapped <;> simp [linesNeeded, Item.height]
  | _ => simp only [linesNeeded]; omega

theorem height_le_linesNeeded (mapped : Bool) (items : List Item) : height items ≤ linesNeeded mapped items := by
  induction items with
  | nil => exact Nat.le_refl 0
  | cons i items ih =>
    rw [height_cons, linesNeeded_cons]
    omega

/-- Only the place that is recorded last can be behind the last line. -/
theorem linesNeeded_le (mapped : Bool) (items : List Item) : linesNeeded mapped items ≤ height items + 1 := by
  induction items with
  | nil => exact Nat.zero_le _
  | cons i items ih =>
    rw [height_cons]
    cases i with
    | origin l => cases mapped <;> simp only [linesNeeded_origin_mapped, linesNeeded_origin_unmapped] <;> omega
    | _ => simp only [linesNeeded]; omega

/-- No place is recorded behind the end of a function. -/
theorem linesNeeded_endFunction (mapped : Bool) (items : List Item) :
    linesNeeded mapped (items ++ [.endFunction]) = height (items ++ [.endFunction]) := by
  induction items with
  | nil => rfl
  | cons i items ih =>
    have hlast : 1 ≤ height (items ++ [.endFunction]) := by simp
    rw [List.cons_append, height_cons]
    cases i with
    | origin l =>
      have horigin : (Item.origin l).height = 0 := rfl
      cases mapped <;> simp only [linesNeeded_origin_mapped, linesNeeded_origin_unmapped, ih] <;> omega
    | _ => simp only [linesNeeded, ih]

namespace Emission

variable {α β : Type} {m : Emission Unit}

@[simp] theorem height_pure (a : α) : height (Pure.pure a : Emission α).items = 0 := rfl

@[simp] theorem height_emit (items : List Item) : height (emit items).items = height items := rfl

@[simp] theorem height_verbatim (texts : List String) : height (verbatim texts).items = texts.length := by
  induction texts with
  | nil => rfl
  | cons t texts ih =>
    rw [List.length_cons, Nat.add_comm, ← ih]
    rfl

@[simp] theorem height_bind {f : Unit → Emission β} (h : m.Ends) :
    height (m >>= f).items = height m.items + height (f ()).items := by
  rw [bind_ok h, height_append]

theorem height_bind_le (m : Emission Unit) (f : Unit → Emission β) :
    height (m >>= f).items ≤ height m.items + height (f ()).items := by
  cases hm : m.result with
  | error e =>
    rw [bind_error hm]
    exact Nat.le_add_right _ _
  | ok a => exact Nat.le_of_eq (height_bind hm)

theorem height_each_le {f : α → Emission Unit} {xs : List α} {n : Nat} (h : ∀ x ∈ xs, height (f x).items ≤ n) :
    height (each f xs).items ≤ xs.length * n := by
  induction xs with
  | nil => exact Nat.zero_le _
  | cons x xs ih =>
    obtain ⟨hx,hxs⟩ := List.forall_mem_cons.mp h
    rw [List.length_cons, Nat.add_one_mul, Nat.add_comm]
    exact Nat.le_trans (height_bind_le _ _) (Nat.add_le_add hx (ih hxs))

@[simp] theorem height_ofConfig (r : Except Error α) : height (ofConfig r).items = 0 := rfl

@[simp] theorem height_ofHalt (r : Except (Halt Error) α) : height (ofHalt r).items = 0 := by
  rcases r with (e | _) | a <;> rfl

@[simp] theorem height_function (h : Header) (body : Emission Unit) :
    height (function h body).items = height body.items + 3 := by
  simp [function]
  omega

end Emission

namespace Context

variable {mapped : Bool} {c d : Context} {i : Item} {items : List Item}

theorem length_rows_render (h : c.render? mapped i = some d) :
    d.page.rows.length = c.page.rows.length + i.height := by
  rw [Stroke.length_rows_writeAll (render?_eq_some h).1, Item.countP_strokes]

theorem isSome_render_iff :
    (c.render? mapped i).isSome ↔ c.page.rows.length + linesNeeded mapped [i] ≤ maxLines.toNat := by
  have hstrokes : ((i.strokes c.current).foldlM Stroke.write? c.page).isSome ↔
      c.page.rows.length + i.height ≤ maxLines.toNat := by
    rw [Stroke.isSome_writeAll_iff, Item.countP_strokes]
  have hfits := c.page.length_rows_le
  rw [render?_eq]
  cases i with
  | origin l =>
    have hline : c.page.currentLine?.isSome ↔ c.page.rows.length + 1 ≤ maxLines.toNat := by
      rw [Page.currentLine?, Nat.succ_le_iff, ← Page.lineCount_lt_iff]
      split <;> simp_all
    cases mapped <;> simp [Item.strokes, Item.marks, mapAfter?, linesNeeded, hline, hfits]
  | _ => simpa [mapAfter?, linesNeeded, Option.isSome_bind] using hstrokes

/-- Items are rendered if and only if the lines that they need can be counted. -/
theorem isSome_renderAll_iff : (c.renderAll? mapped items).isSome ↔
    c.page.rows.length + linesNeeded mapped items ≤ maxLines.toNat := by
  induction items generalizing c with
  | nil => exact iff_of_true rfl c.page.length_rows_le
  | cons i items ih =>
    rw [renderAll?, List.foldlM_cons, linesNeeded_cons]
    have hi : (c.render? mapped i).isSome ↔ c.page.rows.length + linesNeeded mapped [i] ≤ maxLines.toNat :=
      isSome_render_iff
    cases hd : c.render? mapped i with
    | none =>
      rw [hd] at hi
      have hfull := hi.not.mp (by simp)
      exact iff_of_false (by simp) (by omega)
    | some d =>
      rw [hd] at hi
      have hroom := hi.mp rfl
      have hlength := length_rows_render hd
      refine ih.trans ?_
      omega

end Context

end Cartridge.Code
