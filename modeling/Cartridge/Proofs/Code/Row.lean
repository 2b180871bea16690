import Mathlib.Data.List.Induction
import Cartridge.Proofs.Code.Emission
import Cartridge.Proofs.Text.Unbroken

/-!
Lines that are counted and lines that are there. A page counts one line for each row, which is the
number of newlines in its text as long as no row holds a newline itself.
-/
namespace Cartridge

structure SourceMap.Entry.Maps (e : Entry) (line : UInt32) (l : Location) : Prop where
  line : e.line = line
  file : e.file = l.file
  originLine : e.originLine = l.line
  originColumn : e.originColumn = l.column
  snippet : e.snippet = l.snippet

namespace Code

open Text

section foldlM

variable {α β γ : Type} {f : β → α → Option β} {as : List α} {b c : β}

theorem foldlM_cons_eq_some {a : α} :
    (a :: as).foldlM f b = some c ↔ ∃ d, f b a = some d ∧ as.foldlM f d = some c := by
  rw [List.foldlM_cons, Option.bind_eq_bind, Option.bind_eq_some_iff]

theorem foldlM_append_eq_some {more : List α} :
    (as ++ more).foldlM f b = some c ↔ ∃ d, as.foldlM f b = some d ∧ more.foldlM f d = some c := by
  rw [List.foldlM_append, Option.bind_eq_bind, Option.bind_eq_some_iff]

/-- What every step puts in front stays in front of what was there. -/
theorem suffix_of_foldlM {g : β → List γ} (hstep : ∀ {b a c}, f b a = some c → g b <:+ g c)
    (h : as.foldlM f b = some c) : g b <:+ g c := by
  induction as generalizing b with
  | nil => cases h; exact List.suffix_rfl
  | cons a as ih =>
    obtain ⟨d,hd,hc⟩ := foldlM_cons_eq_some.mp h
    exact (hstep hd).trans (ih hc)

/-- What holds after a step if it held before and the step is good, holds in the end if it held at
first and all steps are good. -/
theorem iff_of_foldlM {p : β → Prop} {good : α → Prop}
    (hstep : ∀ {b a c}, f b a = some c → (p c ↔ good a ∧ p b)) (h : as.foldlM f b = some c) :
    p c ↔ (∀ a ∈ as, good a) ∧ p b := by
  induction as generalizing b with
  | nil => cases h; simp
  | cons a as ih =>
    obtain ⟨d,hd,hc⟩ := foldlM_cons_eq_some.mp h
    rw [ih hc, hstep hd, List.forall_mem_cons]
    exact and_left_comm.trans and_assoc.symm

end foldlM

namespace Page

theorem line?_eq_some {p q : Page} {text : String} (h : p.line? text = some q) :
    q.rows = row p.depth text :: p.rows ∧ q.depth = p.depth := by
  rw [line?] at h
  split at h
  next => cases h; exact ⟨rfl,rfl⟩
  next => cases h

theorem currentLine?_eq_some {p : Page} {n : UInt32} (h : p.currentLine? = some n) :
    n.toNat = p.rows.length + 1 := by
  rw [currentLine?] at h
  split at h
  next hmax =>
    cases h
    rw [toNat_add_one hmax, p.counted]
  next => cases h

def Whole (p : Page) : Prop := ∀ row ∈ p.rows, Unbroken row

/-- As many lines are counted as there are newlines. -/
def Counted (p : Page) : Prop := p.lineCount.toNat = p.text.toList.count '\n'

theorem toList_textOf_cons (row : String) (rows : List String) :
    (textOf (row :: rows)).toList = row.toList ++ '\n' :: (textOf rows).toList := by
  simp [textOf]

theorem count_textOf (rows : List String) :
    (textOf rows).toList.count '\n' =
      rows.length + (rows.flatMap String.toList).count '\n' := by
  induction rows with
  | nil => rfl
  | cons row rows ih =>
    rw [toList_textOf_cons, List.count_append, List.count_cons_self, ih, List.length_cons,
      List.flatMap_cons, List.count_append]
    omega

/-- Lines are counted right if and only if no row holds a newline. -/
theorem counted_iff {p : Page} : p.Counted ↔ p.Whole := by
  rw [Counted, p.counted, text, count_textOf, List.length_reverse]
  simp [Whole, Unbroken, List.count_eq_zero]

/-- At all times while a page was written, lines were counted right. Rows stand last first, so an
earlier page has a suffix of them. -/
def AlwaysCounted (p : Page) : Prop := ∀ earlier : Page, earlier.rows <:+ p.rows → earlier.Counted

theorem alwaysCounted_iff {p : Page} : p.AlwaysCounted ↔ p.Whole := by
  refine ⟨fun h => counted_iff.mp (h p List.suffix_rfl),fun h earlier hearlier => ?_⟩
  exact counted_iff.mpr fun row hrow => h row (hearlier.subset hrow)

theorem pieces_textOf (rows : List String) :
    pieces (textOf rows).toList = rows.flatMap (fun row => pieces row.toList) ++ [[]] := by
  induction rows with
  | nil => rfl
  | cons row rows ih =>
    rw [toList_textOf_cons, pieces_append_newline, ih, List.flatMap_cons, List.append_assoc]

/-- Split at newlines, the text of whole rows gives them back, and nothing behind them. -/
theorem pieces_textOf_whole {rows : List String} (h : ∀ row ∈ rows, Unbroken row) :
    pieces (textOf rows).toList = rows.map String.toList ++ [[]] := by
  have hrows : rows.map (fun row => pieces row.toList) = rows.map fun row => [row.toList] :=
    List.map_congr_left fun row hrow => pieces_of_not_mem (h row hrow)
  rw [pieces_textOf, List.flatMap_def, hrows, ← List.flatMap_def, List.map_eq_flatMap]

/-- What is added to a page begins at the next line of the final text, if all rows are whole. -/
theorem head?_pieces_added {p q r : Page} (hpq : p.rows <:+ q.rows) (hqr : q.rows <:+ r.rows)
    (hr : r.Whole) (hadded : q.added p ≠ "") :
    (pieces (q.added p).toList).head? = (pieces r.text.toList)[p.rows.length]? := by
  obtain ⟨new,hnew⟩ := hpq
  obtain ⟨later,hlater⟩ := hqr
  have hrows : q.rows.take (q.rows.length - p.rows.length) = new := by
    rw [← hnew, List.length_append, Nat.add_sub_cancel, List.take_left]
  have htext : q.added p = textOf new.reverse := by rw [added, hrows]
  have hnewWhole : ∀ row ∈ new.reverse, Unbroken row := by
    intro row hrow
    refine hr row ?_
    rw [← hlater, ← hnew]
    simp [List.mem_reverse.mp hrow]
  have hallWhole : ∀ row ∈ r.rows.reverse, Unbroken row :=
    fun row hrow => hr row (List.mem_reverse.mp hrow)
  rw [htext] at hadded
  rw [htext, text, pieces_textOf_whole hnewWhole, pieces_textOf_whole hallWhole, ← hlater, ← hnew]
  cases hreverse : new.reverse with
  | nil =>
    rw [hreverse] at hadded
    exact absurd rfl hadded
  | cons row rows => simp [hreverse]

theorem unbroken_row {depth : Nat} {text : String} : Unbroken (row depth text) ↔ Unbroken text := by
  have hindent : '\n' ∉ (indentation depth).toList := by simp [indentation]
  rw [row]
  split
  next h => simp_all [Unbroken]
  next => simp [Unbroken, hindent]

end Page

/-- A line or a step of the indentation. -/
inductive Stroke where
  | line (text : String)
  | indent
  | dedent

namespace Stroke

def write? (p : Page) : Stroke → Option Page
  | .line text => p.line? text
  | .indent => some p.indent
  | .dedent => some p.dedent

def KeepsLine : Stroke → Prop
  | .line text => Unbroken text
  | .indent | .dedent => True

variable {p q : Page} {s : Stroke}

theorem rows_write (h : s.write? p = some q) : p.rows <:+ q.rows := by
  cases s with
  | line text =>
    rw [(Page.line?_eq_some h).1]
    exact List.suffix_cons ..
  | indent | dedent => cases h; exact List.suffix_rfl

theorem whole_write (h : s.write? p = some q) : q.Whole ↔ s.KeepsLine ∧ p.Whole := by
  cases s with
  | line text =>
    rw [Page.Whole, (Page.line?_eq_some h).1, List.forall_mem_cons, Page.unbroken_row]
    rfl
  | indent | dedent => cases h; simp [KeepsLine, Page.Whole, Page.indent, Page.dedent]

end Stroke

namespace Mark

def strokes : Mark → List Stroke
  | .line text => [.line text]
  | .lines text => (Text.lines text).map .line
  | .blank => [.line ""]
  | .block header => [.line (header ++ " \x7b"), .indent]
  | .close text => [.dedent, .line text]
  | .reopen text => [.dedent, .line text, .indent]
  | .indent => [.indent]
  | .dedent => [.dedent]

theorem write?_eq (p : Page) (m : Mark) : m.write? p = m.strokes.foldlM Stroke.write? p := by
  cases m with
  | lines text =>
    rw [strokes, List.foldlM_map]
    rfl
  | block | reopen =>
    rw [write?, Option.map_eq_bind]
    rfl
  | _ => simp [write?, strokes, Stroke.write?]

def lineText? : Mark → Option String
  | .line text | .block text | .close text | .reopen text => some text
  | .lines _ | .blank | .indent | .dedent => none

def KeepsLine (m : Mark) : Prop := ∀ text ∈ m.lineText?, Unbroken text

@[simp] theorem keepsLine_line {text : String} : (line text).KeepsLine ↔ Unbroken text := by
  simp [KeepsLine, lineText?]

@[simp] theorem keepsLine_block {text : String} : (block text).KeepsLine ↔ Unbroken text := by
  simp [KeepsLine, lineText?]

@[simp] theorem keepsLine_close {text : String} : (close text).KeepsLine ↔ Unbroken text := by
  simp [KeepsLine, lineText?]

@[simp] theorem keepsLine_reopen {text : String} : (reopen text).KeepsLine ↔ Unbroken text := by
  simp [KeepsLine, lineText?]

@[simp] theorem keepsLine_lines (text : String) : (lines text).KeepsLine := nofun

@[simp] theorem keepsLine_blank : blank.KeepsLine := nofun

@[simp] theorem keepsLine_indent : indent.KeepsLine := nofun

@[simp] theorem keepsLine_dedent : dedent.KeepsLine := nofun

theorem keepsLine_iff {m : Mark} : m.KeepsLine ↔ ∀ s ∈ m.strokes, s.KeepsLine := by
  cases m with
  | lines text => 
    simpa [strokes, Stroke.KeepsLine] using fun row hrow => unbroken_of_mem_lines hrow
  | _ => simp +decide [strokes, Stroke.KeepsLine]

end Mark

namespace Item

def marks (current : Section) : Item → List Mark
  | .mark m => [m]
  | .banner => [.line s!"/* ==== {current.name} ==== */", .blank]
  | .problem rule message _ => [.line s!"/* error {rule.text}: {sanitize message} */"]
  | .beginFunction h => [.block h.signature]
  | .endFunction => [.close Mark.closeBrace, .blank]
  | .enter _ | .origin _ => []

def strokes (current : Section) (i : Item) : List Stroke := (i.marks current).flatMap Mark.strokes

def lineText? : Item → Option String
  | .mark m => m.lineText?
  | .problem _ message _ => some message
  | .beginFunction h => some h.signature
  | .banner | .enter _ | .origin _ | .endFunction => none

def KeepsLine (i : Item) : Prop := ∀ text ∈ i.lineText?, Unbroken text

theorem keepsLine_iff (current : Section) {i : Item} :
    i.KeepsLine ↔ ∀ s ∈ i.strokes current, s.KeepsLine := by
  have hname : Unbroken current.name := by cases current <;> decide +kernel
  have hmarks : i.KeepsLine ↔ ∀ m ∈ i.marks current, m.KeepsLine := by
    cases i with
    | mark m => simp [KeepsLine, lineText?, marks, Mark.KeepsLine]
    | _ => simp +decide [KeepsLine, lineText?, marks, Rule.text, hname]
  rw [hmarks, strokes, List.forall_mem_flatMap]
  exact forall₂_congr fun m _ => m.keepsLine_iff

end Item

namespace Context

variable {mapped : Bool} {c d : Context}

def noted (c : Context) : Item → Context
  | .enter s => { c with current := s }
  | .problem rule message location => { c with
      diagnostics := c.diagnostics.pushError ⟨rule,.error,c.current.name,message,location⟩ }
  | .beginFunction h => { c with functions := h.name :: c.functions }
  | .endFunction => { c with functions := c.functions.tail }
  | .mark _ | .banner | .origin _ => c

def mapAfter? (mapped : Bool) (c : Context) : Item → Option SourceMap
  | .origin l =>
    if mapped then c.page.currentLine?.map (c.sourceMap.push · l c.functions.head?)
    else some c.sourceMap
  | _ => some c.sourceMap

/-- Rendering an item is writing its marks, recording its place and noting the rest. -/
theorem render?_eq (i : Item) :
    c.render? mapped i = ((i.strokes c.current).foldlM Stroke.write? c.page).bind fun page =>
      (c.mapAfter? mapped i).map fun sourceMap => { c.noted i with page, sourceMap } := by
  have hmarks (ms : List Mark) (p : Page) :
      (ms.flatMap Mark.strokes).foldlM Stroke.write? p = ms.foldlM Mark.write? p := by
    induction ms generalizing p with
    | nil => rfl
    | cons m ms ih => simp [List.foldlM_append, ih, Mark.write?_eq]
  rw [Item.strokes, hmarks]
  cases i with
  | enter => rfl
  | origin l => cases mapped <;> simp [render?, Item.marks, mapAfter?, noted, Function.comp_def]
  | banner | endFunction =>
    simp only [render?, write?, Item.marks, List.foldlM_cons, List.foldlM_nil]
    rcases Mark.write? c.page _ with _ | p
    · rfl
    · simp only [Option.map_some, Option.bind_eq_bind, Option.bind_some]
      rcases Mark.write? p _ with _ | q <;> rfl
  | _ =>
    simp only [render?, write?, Item.marks, List.foldlM_cons, List.foldlM_nil]
    rcases Mark.write? c.page _ with _ | p <;> rfl

theorem render?_eq_some {i : Item} (h : c.render? mapped i = some d) :
    (i.strokes c.current).foldlM Stroke.write? c.page = some d.page ∧
      c.mapAfter? mapped i = some d.sourceMap ∧
      d = { c.noted i with page := d.page, sourceMap := d.sourceMap } := by
  rw [render?_eq] at h
  obtain ⟨page,hpage,hrest⟩ := Option.bind_eq_some_iff.mp h
  obtain ⟨map,hmap,rfl⟩ := Option.map_eq_some_iff.mp hrest
  exact ⟨hpage,hmap,rfl⟩

theorem rows_render {i : Item} (h : c.render? mapped i = some d) : c.page.rows <:+ d.page.rows :=
  suffix_of_foldlM Stroke.rows_write (render?_eq_some h).1

theorem rows_renderAll {items : List Item} (h : c.renderAll? mapped items = some d) :
    c.page.rows <:+ d.page.rows :=
  suffix_of_foldlM (g := fun c : Context => c.page.rows) rows_render h

/-- The rows of rendered items are whole if and only if the text of each stays on its line. -/
theorem whole_renderAll {items : List Item} (h : c.renderAll? mapped items = some d) :
    d.page.Whole ↔ (∀ i ∈ items, i.KeepsLine) ∧ c.page.Whole := by
  refine iff_of_foldlM (p := fun c : Context => c.page.Whole) (fun {c} _ _ hstep => ?_) h
  rw [Item.keepsLine_iff c.current]
  exact iff_of_foldlM Stroke.whole_write (render?_eq_some hstep).1

/-- Every entry was made for a place, and has the number of the line after those before it. -/
theorem entry_of_renderAll {items : List Item} {e : SourceMap.Entry}
    (h : start.renderAll? true items = some d) (he : e ∈ d.sourceMap.entries) :
    ∃ before l after c line, items = before ++ .origin l :: after ∧
      start.renderAll? true before = some c ∧ c.page.currentLine? = some line ∧ e.Maps line l := by
  induction items using List.reverseRecOn generalizing d with
  | nil => cases h; cases he
  | append_singleton items i ih =>
    obtain ⟨c,hc,hd⟩ := foldlM_append_eq_some.mp h
    have hlast : e ∈ c.sourceMap.entries ∨
        ∃ l line, i = .origin l ∧ c.page.currentLine? = some line ∧ e.Maps line l := by
      obtain ⟨_,hi,⟨⟩⟩ := foldlM_cons_eq_some.mp hd
      obtain ⟨-,hmap,-⟩ := render?_eq_some hi
      cases i with
      | origin l =>
        obtain ⟨line,hline,hmap⟩ := Option.map_eq_some_iff.mp hmap
        rw [← hmap] at he
        refine (List.mem_append.mp he).imp_right fun he => ⟨l,line,rfl,hline,?_⟩
        rw [List.mem_singleton.mp he]
        exact ⟨rfl,rfl,rfl,rfl,rfl⟩
      | _ =>
        rw [← Option.some_inj.mp hmap] at he
        exact .inl he
    rcases hlast with he | ⟨l,line,rfl,hline,hentry⟩
    · obtain ⟨before,l,after,b,line,rfl,hb⟩ := ih hc he
      exact ⟨before,l,after ++ [i],b,line,by simp,hb⟩
    · exact ⟨items,l,[],c,line,rfl,hc,hline,hentry⟩

end Context

end Code

end Cartridge
