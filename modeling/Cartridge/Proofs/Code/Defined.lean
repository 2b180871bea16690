import Mathlib.Data.List.Perm.Basic
import Cartridge.Proofs.Code.Emission

/-!
The functions of an emission. Most parts define none. Of the others it is said which ones they define
once everything is emitted, and which of these are static.
-/
namespace Cartridge.Code

namespace Item

def header? : Item → Option Header
  | .beginFunction h => some h
  | _ => none

@[simp] theorem header?_mark (m : Mark) : (mark m).header? = none := rfl

@[simp] theorem header?_banner : banner.header? = none := rfl

@[simp] theorem header?_enter (place : Section) : (enter place).header? = none := rfl

@[simp] theorem header?_origin (l : Location) : (origin l).header? = none := rfl

@[simp] theorem header?_problem (rule : Rule) (message : String) (location : Option Location) :
    (problem rule message location).header? = none := rfl

@[simp] theorem header?_beginFunction (h : Header) : (beginFunction h).header? = some h := rfl

@[simp] theorem header?_endFunction : endFunction.header? = none := rfl

end Item

def Begins (cs : List Char) (text : String) : Prop := cs <+: text.toList

/-- Of a fixed text the letters are looked at one by one. -/
theorem begins_literal {cs ds : List Char} (h : cs.isPrefixOf ds = true) :
    Begins cs (.ofList ds) := by
  rw [Begins, String.toList_ofList]
  exact List.isPrefixOf_iff_prefix.mp h

theorem Begins.append {cs : List Char} {a b : String} (h : Begins cs a) : Begins cs (a ++ b) := by
  rw [Begins, String.toList_append]
  exact h.trans (List.prefix_append _ _)

namespace Header

def staticWord : List Char := ['s','t','a','t','i','c',' ']

def isStatic (h : Header) : Bool := staticWord.isPrefixOf h.signature.toList

variable {h : Header}

theorem isStatic_of_begins (hsig : Begins staticWord h.signature) : h.isStatic = true :=
  List.isPrefixOf_iff_prefix.mpr hsig

theorem isStatic_eq_false {c : Char} (hsig : Begins [c] h.signature) (hc : c ≠ 's') :
    h.isStatic = false := by
  obtain ⟨rest,hrest⟩ := hsig
  rw [isStatic, ← hrest]
  simp [staticWord, List.isPrefixOf, hc.symm]

@[simp] theorem isStatic_procedure (name : String) : (procedure name).isStatic = false :=
  isStatic_eq_false (c := 'v') (.append (.append (begins_literal rfl))) (by decide)

def exports (hs : List Header) : List String := (hs.filter fun h => !h.isStatic).map prototype

section exports
variable {α : Type} {gs hs : List Header}

@[simp] theorem exports_append : exports (gs ++ hs) = exports gs ++ exports hs := by simp [exports]

@[simp] theorem exports_flatMap {xs : List α} {hs : α → List Header} :
    exports (xs.flatMap hs) = xs.flatMap fun x => exports (hs x) := by
  simp [exports, List.filter_flatMap, List.map_flatMap]

theorem exports_of_static (hhs : ∀ h ∈ hs, h.isStatic = true) : exports hs = [] := by
  simpa [exports] using hhs

theorem exports_of_not_static (hhs : ∀ h ∈ hs, h.isStatic = false) : exports hs = hs.map prototype := by
  rw [exports, List.filter_eq_self.mpr (by simpa using hhs)]

end exports

end Header

namespace Emission

variable {α : Type}

def defined (m : Emission α) : List Header := m.items.filterMap Item.header?

def exported (m : Emission α) : List Header := m.defined.filter fun h => !h.isStatic

abbrev Plain (m : Emission α) : Prop := m.Every fun i => i.header? = none

theorem Plain.defined_eq {m : Emission α} (h : m.Plain) : m.defined = [] :=
  List.filterMap_eq_nil_iff.mpr h

section defines

variable {m : Emission Unit} {f : Unit → Emission Unit} {h : Header} {gs hs : List Header}

theorem defined_bind (hm : m.Ends) : (m >>= f).defined = m.defined ++ (f ()).defined := by
  rw [bind_ok hm, defined, List.filterMap_append]
  rfl

theorem defined_function (h : Header) (body : Emission Unit) :
    (function h body).defined = h :: body.defined := by
  simp [defined, function]

/-- If everything is emitted, just these functions are defined, in this order. -/
def Defines (m : Emission Unit) (hs : List Header) : Prop := m.Ends → m.defined = hs

theorem Plain.defines (hm : m.Plain) : m.Defines [] := fun _ => hm.defined_eq

theorem defines_pure : (Pure.pure () : Emission Unit).Defines [] := Plain.defines (every_pure ())

theorem Defines.bind (hm : m.Defines gs) (hf : (f ()).Defines hs) : (m >>= f).Defines (gs ++ hs) := by
  intro hends
  obtain ⟨hmends,hfends⟩ := ends_bind.mp hends
  rw [defined_bind hmends, hm hmends, hf hfends]

/-- What defines no function may stand in front. -/
theorem Defines.after (hf : (f ()).Defines hs) (hm : m.Plain) : (m >>= f).Defines hs := hm.defines.bind hf

theorem defines_function {body : Emission Unit} (hbody : body.Plain) : (function h body).Defines [h] := by
  intro _
  rw [defined_function, hbody.defined_eq]

theorem Defines.each {f : α → Emission Unit} {hs : α → List Header} {xs : List α}
    (hf : ∀ x ∈ xs, (f x).Defines (hs x)) : (each f xs).Defines (xs.flatMap hs) := by
  induction xs with
  | nil => exact defines_pure
  | cons x xs ih =>
    obtain ⟨hx,hxs⟩ := List.forall_mem_cons.mp hf
    exact hx.bind (ih hxs)

theorem Defines.each_one {f : α → Emission Unit} {h : α → Header} {xs : List α}
    (hf : ∀ x ∈ xs, (f x).Defines [h x]) : (Emission.each f xs).Defines (xs.map h) := by
  rw [List.map_eq_flatMap]
  exact .each hf

/-- A part may be left out where there is nothing to emit it for. -/
theorem Defines.unless_empty {xs : List α} {hs : α → List Header} (hm : m.Defines (xs.flatMap hs)) :
    (if xs.isEmpty then Pure.pure () else m).Defines (xs.flatMap hs) := by
  cases xs with
  | nil => exact defines_pure
  | cons x xs => exact hm

end defines

end Emission

end Cartridge.Code
