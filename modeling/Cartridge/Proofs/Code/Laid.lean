import Cartridge.Proofs.Code.Row

/-!
How the lines of an emission come about. Most emissions are inert: they note no place, and their
texts stay on their lines. Of the others it is said on what condition their texts do, and what every
place is noted for.
-/
namespace Cartridge.Code

open Text

namespace Item

/-- No place is noted, and the text stays on its line. The message of a problem is left aside. -/
def Inert : Item → Prop
  | .origin _ => False
  | .problem .. => True
  | i => i.KeepsLine

@[simp] theorem inert_mark {m : Mark} : (mark m).Inert ↔ m.KeepsLine := Iff.rfl

@[simp] theorem inert_banner : banner.Inert := nofun

@[simp] theorem inert_enter (place : Section) : (enter place).Inert := nofun

@[simp] theorem inert_problem (rule : Rule) (message : String) (location : Option Location) :
    (problem rule message location).Inert := trivial

@[simp] theorem inert_beginFunction {h : Header} :
    (beginFunction h).Inert ↔ Unbroken h.signature := by
  simp [Inert, KeepsLine, lineText?]

@[simp] theorem inert_endFunction : endFunction.Inert := nofun

theorem Inert.keepsLine {i : Item} (h : i.Inert) (hproblem : i.isProblem = false) :
    i.KeepsLine := by
  cases i with
  | origin => cases h
  | problem => cases hproblem
  | _ => exact h

/-- What follows a place among items begins with what the place is noted for. -/
def Traced (noted : Location → List Item → Prop) (items : List Item) : Prop :=
  ∀ l rest, .origin l :: rest <:+ items → ∃ own, own <+: .origin l :: rest ∧ noted l own

variable {noted : Location → List Item → Prop} {xs ys : List Item}

theorem Traced.append (hx : Traced noted xs) (hy : Traced noted ys) : Traced noted (xs ++ ys) := by
  rintro l rest ⟨before,hbefore⟩
  rcases List.append_eq_append_iff.mp hbefore with ⟨between,rfl,hrest⟩ | ⟨between,-,rfl⟩
  · cases between with
    | nil =>
      rw [List.nil_append] at hrest
      exact hy l rest (hrest ▸ List.suffix_rfl)
    | cons i between =>
      rw [List.cons_append, List.cons.injEq] at hrest
      obtain ⟨rfl,rfl⟩ := hrest
      obtain ⟨own,hbegins,hown⟩ := hx l between (List.suffix_append _ _)
      exact ⟨own,hbegins.trans (List.prefix_append _ _),hown⟩
  · exact hy l rest (List.suffix_append _ _)

theorem traced_of_inert (h : ∀ i ∈ xs, i.Inert) : Traced noted xs := by
  intro l rest hsuffix
  cases h (.origin l) (hsuffix.subset (by simp))

/-- A place in front of items that it is noted for, and of nothing else. -/
theorem Traced.cons {l : Location} (hown : noted l (.origin l :: xs)) (hx : Traced noted xs) :
    Traced noted (.origin l :: xs) := by
  rintro l' rest hsuffix
  rcases List.suffix_cons_iff.mp hsuffix with he | hsuffix
  · cases he
    exact ⟨_,List.prefix_rfl,hown⟩
  · exact hx l' rest hsuffix

end Item

namespace Emission

variable {α β : Type}

section inert

def Inert (m : Emission α) : Prop := ∀ i ∈ m.items, i.Inert

@[simp] theorem inert_pure (a : α) : (Pure.pure a : Emission α).Inert := every_pure a

@[simp] theorem inert_emit {items : List Item} :
    (emit items).Inert ↔ ∀ i ∈ items, i.Inert := every_emit

@[simp] theorem inert_verbatim {texts : List String} :
    (verbatim texts).Inert ↔ AreUnbroken texts := by
  simp [verbatim, AreUnbroken]

@[simp] theorem inert_ofExcept (r : Except LowerError α) : (ofExcept r).Inert := every_ofExcept r

@[simp] theorem inert_ofConfig (r : Except Error α) : (ofConfig r).Inert := every_ofConfig r

@[simp] theorem inert_ofHalt (r : Except (Halt Error) α) : (ofHalt r).Inert := every_ofHalt r

@[simp] theorem inert_ofOption (r : Option α) : (ofOption r).Inert := every_ofOption r

@[simp] theorem inert_bind {m : Emission Unit} {f : Unit → Emission β} :
    (m >>= f).Inert ↔ m.Inert ∧ (m.Ends → (f ()).Inert) := every_bind

@[simp] theorem inert_ite {c : Prop} [Decidable c] {m n : Emission α} :
    (if c then m else n).Inert ↔ (c → m.Inert) ∧ (¬c → n.Inert) := every_ite

@[simp] theorem Inert.each {f : α → Emission Unit} {xs : List α} (h : ∀ x ∈ xs, (f x).Inert) :
    (each f xs).Inert := Every.each h

@[simp] theorem inert_function {h : Header} {body : Emission Unit} :
    (function h body).Inert ↔ Unbroken h.signature ∧ body.Inert :=
  every_function.trans
    (and_congr Item.inert_beginFunction (and_iff_left Item.inert_endFunction))

theorem Inert.choice {arms : Emission Unit} (h : arms.Inert) {selector : String}
    (hselector : Unbroken selector) : (choice selector arms).Inert := by
  simp +decide [h, hselector]

end inert

section laid

def Whole (m : Emission α) : Prop := ∀ i ∈ m.items, i.isProblem = false → i.KeepsLine

/-- How the lines of an emission come about: if everything is emitted, a condition decides whether
all texts stay on their lines; and what follows a place begins with what the place is noted for. -/
structure Laid (noted : Location → List Item → Prop) (m : Emission Unit) (p : Prop) : Prop where
  whole : m.Ends → (m.Whole ↔ p)
  traced : Item.Traced noted m.items

variable {noted : Location → List Item → Prop} {m : Emission Unit} {f : Unit → Emission Unit}
  {p q : Prop}

theorem Inert.laid (h : m.Inert) : m.Laid noted True where
  whole _ := iff_true_intro fun i hi => (h i hi).keepsLine
  traced := Item.traced_of_inert h

theorem Laid.congr (h : m.Laid noted p) (hpq : p ↔ q) : m.Laid noted q :=
  ⟨fun hends => (h.whole hends).trans hpq,h.traced⟩

theorem laid_mark (mark : Mark) : (emit [.mark mark]).Laid noted mark.KeepsLine where
  whole _ := by simp [Whole, emit, Item.KeepsLine, Item.lineText?, Mark.KeepsLine]
  traced := by
    rintro l rest hsuffix
    cases List.mem_singleton.mp (hsuffix.subset (List.mem_cons_self ..))

theorem laid_verbatim (texts : List String) : (verbatim texts).Laid noted (AreUnbroken texts) where
  whole _ := by
    simp [Whole, verbatim, emit, Item.KeepsLine, Item.lineText?, Mark.lineText?, AreUnbroken]
  traced := by
    intro l rest hsuffix
    obtain ⟨t,-,ht⟩ := List.mem_map.mp (hsuffix.subset (List.mem_cons_self ..))
    cases ht

theorem Laid.bind (hm : m.Laid noted p) (hf : (f ()).Laid noted q) :
    (m >>= f).Laid noted (p ∧ q) where
  whole hends := by
    obtain ⟨hmends,hfends⟩ := ends_bind.mp hends
    rw [← hm.whole hmends, ← hf.whole hfends, bind_ok hmends]
    simp [Whole, or_imp, forall_and]
  traced := by
    cases hr : m.result with
    | error e =>
      rw [bind_error hr]
      exact hm.traced
    | ok u =>
      rw [bind_ok hr]
      exact hm.traced.append hf.traced

theorem Laid.after (hf : (f ()).Laid noted p) (hm : m.Inert) : (m >>= f).Laid noted p :=
  (hm.laid.bind hf).congr (iff_of_eq (true_and p))

theorem Laid.before (hm : m.Laid noted p) (hf : (f ()).Inert) : (m >>= f).Laid noted p :=
  (hm.bind hf.laid).congr (iff_of_eq (and_true p))

/-- A step that may fail leaves the condition to what comes after it. -/
theorem Laid.ofExcept_bind {r : Except LowerError α} {f : α → Emission Unit}
    (h : ∀ a, r = .ok a → (f a).Laid noted p) : (ofExcept r >>= f).Laid noted p := by
  cases r with
  | error e =>
    rw [bind_error (m := ofExcept _) rfl]
    exact ⟨nofun,Item.traced_of_inert nofun⟩
  | ok a =>
    rw [bind_ok (m := ofExcept _) rfl]
    exact h a rfl

theorem Laid.each {f : α → Emission Unit} {p : α → Prop} {xs : List α}
    (h : ∀ x ∈ xs, (f x).Laid noted (p x)) : (each f xs).Laid noted (∀ x ∈ xs, p x) := by
  induction xs with
  | nil => exact (inert_pure ()).laid.congr (by simp)
  | cons x xs ih =>
    obtain ⟨hx,hxs⟩ := List.forall_mem_cons.mp h
    exact (hx.bind (ih hxs)).congr List.forall_mem_cons.symm

/-- A section that is left out if it has nothing to list. -/
theorem Laid.listed {f : α → Emission Unit} {p : α → Prop} {xs : List α}
    (h : ∀ x ∈ xs, (f x).Laid noted (p x)) :
    (if xs.isEmpty then return () else do banner; Emission.each f xs).Laid noted
      (∀ x ∈ xs, p x) := by
  split
  next hempty => exact (inert_pure ()).laid.congr (by simp [List.isEmpty_iff.mp hempty])
  next => exact .after (.each h) (by simp)

theorem Laid.function {h : Header} {body : Emission Unit} (hbody : body.Laid noted p)
    (hh : Unbroken h.signature) : (function h body).Laid noted p where
  whole hends := by
    rw [← hbody.whole hends]
    simp [Whole, Emission.function, Item.KeepsLine, Item.lineText?, hh, or_imp, forall_and]
  traced := by
    have hbegin : Item.Traced noted [.beginFunction h] := Item.traced_of_inert (by simpa using hh)
    have hend : Item.Traced noted [.endFunction] := Item.traced_of_inert (by simp)
    exact hbegin.append (hbody.traced.append hend)

/-- A place in front of what it is noted for. -/
theorem Laid.origin {loc : Option Location} (hf : (f ()).Laid noted p)
    (hnoted : ∀ l ∈ loc, noted l (origin loc >>= f).items) : (origin loc >>= f).Laid noted p := by
  cases loc with
  | none => exact hf.after (by simp [Emission.origin])
  | some l =>
    have hbind : Emission.origin (some l) >>= f = ⟨.origin l :: (f ()).items, (f ()).result⟩ :=
      bind_ok rfl f
    have hown := hnoted l rfl
    rw [hbind] at hown ⊢
    refine ⟨fun hends => ?_,hf.traced.cons hown⟩
    rw [← hf.whole hends]
    simp [Whole, Item.KeepsLine, Item.lineText?]

theorem Laid.arm {body : Emission Unit} (h : body.Laid noted p) {label : String}
    (hlabel : Unbroken label) : (arm label body).Laid noted p := by
  have hcolon : Unbroken s!"{label}:" := by simp +decide [hlabel]
  exact .after (.after (h.before (by simp +decide)) (by simp)) (by simpa using hcolon)

theorem Laid.choice {arms : Emission Unit} (h : arms.Laid noted p) {selector : String}
    (hselector : Unbroken selector) : (choice selector arms).Laid noted p := by
  have hheader : Unbroken s!"switch ({selector})" := by simp +decide [hselector]
  exact .after (h.before (by simp +decide)) (by simpa using hheader)

end laid

end Emission

end Cartridge.Code
