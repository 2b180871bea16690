import Cartridge.Proofs.Code.Row

/-!
Lines that stand in a text. What an emission holds is among its items once everything is emitted, and an item that
writes one line leaves this line in the rendered text.
-/
namespace Cartridge.Code

/-- A text stands in a source, indented, and nothing else stands on its lines. -/
def StandsIn (text source : String) : Prop :=
  ∃ before depth after,
    source = Page.textOf before ++ (Page.indentation depth ++ text ++ "\n") ++ Page.textOf after

namespace Page

theorem textOf_append (rows more : List String) : textOf (rows ++ more) = textOf rows ++ textOf more := by
  simp [textOf]

theorem standsIn_of_mem {p : Page} {depth : Nat} {text : String} (h : indentation depth ++ text ∈ p.rows) :
    StandsIn text p.text := by
  obtain ⟨later,earlier,hrows⟩ := List.append_of_mem h
  refine ⟨earlier.reverse,depth,later.reverse,?_⟩
  have hrow : textOf [indentation depth ++ text] = indentation depth ++ text ++ "\n" := by simp [textOf]
  rw [Page.text, hrows, List.reverse_append, List.reverse_cons, textOf_append, textOf_append, hrow]

end Page

/-- What is written as one line stands in the rendered text. -/
theorem Context.standsIn_renderAll {mapped : Bool} {c d : Context} {items : List Item} {i : Item} {text : String}
    (h : c.renderAll? mapped items = some d) (hi : i ∈ items) (hmarks : ∀ current, i.marks current = [.line text])
    (htext : text ≠ "") : StandsIn text d.page.text := by
  obtain ⟨before,after,rfl⟩ := List.append_of_mem hi
  obtain ⟨b,-,hrest⟩ := foldlM_append_eq_some.mp h
  obtain ⟨e,hitem,hafter⟩ := foldlM_cons_eq_some.mp hrest
  obtain ⟨hpage,-⟩ := render?_eq_some hitem
  rw [Item.strokes, hmarks] at hpage
  obtain ⟨p,hline,⟨⟩⟩ := foldlM_cons_eq_some.mp hpage
  have hempty : text.isEmpty = false := by simpa using htext
  have hrow : Page.indentation b.page.depth ++ text ∈ e.page.rows := by
    rw [(Page.line?_eq_some hline).1, Page.row, hempty]
    exact List.mem_cons_self
  exact Page.standsIn_of_mem ((rows_renderAll hafter).subset hrow)

namespace Emission

/-- If everything is emitted, an item is among what is emitted. -/
def Holds (m : Emission Unit) (i : Item) : Prop := m.Ends → i ∈ m.items

variable {m : Emission Unit} {f : Unit → Emission Unit} {i : Item}

theorem holds_emit {items : List Item} (h : i ∈ items) : (emit items).Holds i := fun _ => h

theorem holds_verbatim {texts : List String} {text : String} (h : text ∈ texts) :
    (verbatim texts).Holds (.mark (.line text)) := fun _ => List.mem_map_of_mem h

theorem Holds.left (hm : m.Holds i) : (m >>= f).Holds i := by
  intro hends
  obtain ⟨hmends,-⟩ := ends_bind.mp hends
  rw [bind_ok hmends]
  exact List.mem_append_left _ (hm hmends)

theorem Holds.right (hf : (f ()).Holds i) : (m >>= f).Holds i := by
  intro hends
  obtain ⟨hmends,hfends⟩ := ends_bind.mp hends
  rw [bind_ok hmends]
  exact List.mem_append_right _ (hf hfends)

theorem Holds.each {α : Type} {f : α → Emission Unit} {xs : List α} {x : α} (hx : x ∈ xs) (h : (f x).Holds i) :
    (each f xs).Holds i := by
  induction xs with
  | nil => cases hx
  | cons y xs ih =>
    rcases List.mem_cons.mp hx with rfl | hxs
    · exact .left h
    · exact .right (ih hxs)

theorem Holds.function {h : Header} {body : Emission Unit} (hbody : body.Holds i) : (function h body).Holds i := by
  intro hends
  rw [Emission.function]
  exact List.mem_cons_of_mem _ (List.mem_append_left _ (hbody (ends_function.mp hends)))

end Emission

end Cartridge.Code
