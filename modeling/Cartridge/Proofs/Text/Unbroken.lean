import Mathlib.Tactic.Common
import Cartridge.Code.Construct
import Cartridge.CString
import Cartridge.Proofs.Code.Name
import Cartridge.Proofs.Number.Digits

/-!
Texts that stay on one line. Numbers, C names and what is built from them always do, and a text cut
at its newlines falls into such pieces.
-/
namespace Cartridge

namespace Text

def Unbroken (text : String) : Prop := '\n' ∉ text.toList

instance (text : String) : Decidable (Unbroken text) := inferInstanceAs (Decidable (¬_))

@[simp] theorem unbroken_append {a b : String} : Unbroken (a ++ b) ↔ Unbroken a ∧ Unbroken b := by
  simp [Unbroken]

@[simp] theorem unbroken_ofList {cs : List Char} : Unbroken (.ofList cs) ↔ '\n' ∉ cs := by
  simp [Unbroken]

/-- Of a fixed text the letters are looked at one by one. -/
theorem unbroken_literal {cs : List Char} (h : '\n' ∉ cs) : Unbroken (.ofList cs) :=
  unbroken_ofList.mpr h

@[simp] theorem unbroken_toString {a : String} : Unbroken (toString a) ↔ Unbroken a := Iff.rfl

@[simp] theorem unbroken_nat (n : Nat) : Unbroken n.repr := by
  rw [Nat.repr, unbroken_ofList]
  intro h
  cases isDigit_of_mem_toDigits h

@[simp] theorem unbroken_int (i : Int) : Unbroken i.repr := by
  cases i with
  | ofNat n => exact unbroken_nat n
  | negSucc n =>
    rw [Int.repr]
    simp +decide

@[simp] theorem unbroken_ite {c : Prop} [Decidable c] {a b : String} :
    Unbroken (if c then a else b) ↔ (c → Unbroken a) ∧ (¬c → Unbroken b) := by
  split <;> simp [*]

def AreUnbroken (texts : List String) : Prop := ∀ t ∈ texts, Unbroken t

section texts

variable {α : Type}

@[simp] theorem areUnbroken_nil : AreUnbroken [] := nofun

@[simp] theorem areUnbroken_cons {t : String} {texts : List String} :
    AreUnbroken (t :: texts) ↔ Unbroken t ∧ AreUnbroken texts := List.forall_mem_cons

@[simp] theorem areUnbroken_append {texts more : List String} :
    AreUnbroken (texts ++ more) ↔ AreUnbroken texts ∧ AreUnbroken more := List.forall_mem_append

@[simp] theorem areUnbroken_map {f : α → String} {xs : List α} :
    AreUnbroken (xs.map f) ↔ ∀ x ∈ xs, Unbroken (f x) := List.forall_mem_map

@[simp] theorem areUnbroken_flatMap {f : α → List String} {xs : List α} :
    AreUnbroken (xs.flatMap f) ↔ ∀ x ∈ xs, AreUnbroken (f x) := List.forall_mem_flatMap

theorem areUnbroken_filterMap {f : α → Option String} {xs : List α} :
    AreUnbroken (xs.filterMap f) ↔ ∀ x ∈ xs, ∀ t ∈ f x, Unbroken t := by
  simp only [AreUnbroken, List.mem_filterMap]
  constructor
  · intro h x hx t ht
    exact h t ⟨x,hx,ht⟩
  · rintro h t ⟨x,hx,ht⟩
    exact h x hx t ht

@[simp] theorem areUnbroken_ite {c : Prop} [Decidable c] {texts more : List String} :
    AreUnbroken (if c then texts else more) ↔ (c → AreUnbroken texts) ∧ (¬c → AreUnbroken more) := by
  split <;> simp [*]

end texts

theorem pieces_ne_nil (cs : List Char) : pieces cs ≠ [] := by
  induction cs with
  | nil => exact nofun
  | cons c cs ih =>
    rw [pieces]
    split
    next h => exact absurd h ih
    next => split <;> exact nofun

/-- A newline separates the pieces before it from those after it. -/
theorem pieces_append_newline (row cs : List Char) :
    pieces (row ++ '\n' :: cs) = pieces row ++ pieces cs := by
  induction row with
  | nil =>
    rw [List.nil_append, pieces, pieces, List.singleton_append]
    cases hcs : pieces cs with
    | nil => exact absurd hcs (pieces_ne_nil cs)
    | cons piece rest => exact if_pos rfl
  | cons c row ih =>
    rw [List.cons_append, pieces, pieces, ih]
    cases hrow : pieces row with
    | nil => exact absurd hrow (pieces_ne_nil row)
    | cons piece rest =>
      rw [List.cons_append]
      dsimp only
      split <;> rfl

theorem pieces_of_not_mem {row : List Char} (h : '\n' ∉ row) : pieces row = [row] := by
  induction row with
  | nil => rfl
  | cons c row ih =>
    rw [List.mem_cons, not_or] at h
    rw [pieces, ih h.2]
    exact if_neg (Ne.symm h.1)

theorem not_mem_of_mem_pieces {cs piece : List Char} (h : piece ∈ pieces cs) : '\n' ∉ piece := by
  induction cs generalizing piece with
  | nil => simp_all [pieces]
  | cons c cs ih =>
    rw [pieces] at h
    split at h
    next => cases h
    next first rest hpieces =>
      rw [hpieces] at ih
      split at h
      next => grind
      next => grind

/-- The lines of a text hold no newline. -/
theorem unbroken_of_mem_lines {text row : String} (h : row ∈ lines text) : Unbroken row := by
  have hstrip {piece : List Char} (hpiece : piece ∈ pieces text.toList) :
      '\n' ∉ stripReturn piece := by
    rw [stripReturn]
    split
    · exact fun hmem => not_mem_of_mem_pieces hpiece (List.dropLast_subset piece hmem)
    · exact not_mem_of_mem_pieces hpiece
  have hended : ∀ piece ∈ (pieces text.toList).dropLast.map stripReturn, '\n' ∉ piece := by
    rw [List.forall_mem_map]
    exact fun piece hmem => hstrip (List.dropLast_subset _ hmem)
  have hlast : '\n' ∉ (pieces text.toList).getLast?.getD [] := by
    cases he : (pieces text.toList).getLast? with
    | none => simp
    | some piece => exact not_mem_of_mem_pieces (List.mem_of_getLast? he)
  obtain ⟨piece,hpiece,rfl⟩ := List.mem_map.mp h
  rw [unbroken_ofList]
  split at hpiece
  · exact hended piece hpiece
  · rcases List.mem_append.mp hpiece with hpiece | hpiece
    · exact hended piece hpiece
    · rw [List.mem_singleton.mp hpiece]
      exact hlast

@[simp] theorem unbroken_sanitize {text : String} : Unbroken (sanitize text) ↔ Unbroken text := by
  have hchars (cs : List Char) : '\n' ∈ sanitizeChars cs ↔ '\n' ∈ cs := by
    fun_induction sanitizeChars cs <;> simp_all
  rw [sanitize, unbroken_ofList, hchars, Unbroken]

@[simp] theorem unbroken_commas {texts : List String} :
    Unbroken (commas texts) ↔ AreUnbroken texts := by
  induction texts with
  | nil => simp +decide
  | cons t texts ih =>
    cases texts with
    | nil => simp [commas]
    | cons u texts =>
      have hcommas : commas (t :: u :: texts) = t ++ ", " ++ commas (u :: texts) := by
        simp [commas, String.intercalate_cons_cons]
      rw [hcommas, unbroken_append, unbroken_append, ih, areUnbroken_cons]
      simp +decide

theorem newline_ne_getD {digits : List Char} (h : '\n' ∉ digits) (n : Nat) :
    '\n' ≠ digits[n]?.getD '0' := by
  cases hn : digits[n]? with
  | none => decide
  | some c =>
    rintro rfl
    exact h (List.mem_of_getElem? hn)

@[simp] theorem unbroken_hexByte (b : UInt8) : Unbroken (hexByte b) := by
  have hdigit := @newline_ne_getD upperHexDigits (by decide)
  rw [hexByte, unbroken_ofList]
  simp [hdigit]

end Text

open Text

/-- A newline in a literal is written as an escape. -/
theorem CString.unbroken_escape (s : String) : Unbroken (escape s) := by
  have hdigit := @newline_ne_getD hexDigits (by decide)
  have hchar (c : Char) : '\n' ∉ escapeChar c := by
    rw [escapeChar]
    split_ifs with hquote hslash hnewline
    all_goals simp [hexByte, hdigit]
    exact Ne.symm hnewline
  rw [escape, unbroken_ofList, List.mem_flatMap]
  rintro ⟨c,-,hc⟩
  exact hchar c hc

namespace Code

@[simp] theorem Name.unbroken_ident (name : String) : Unbroken (ident name) := by
  have hsafe (c : Char) : safe c ≠ '\n' := by
    rw [safe]
    split
    next h =>
      rintro rfl
      cases h
    next => decide
  have hall : '\n' ∉ name.toList.map safe := by simpa using fun c _ => hsafe c
  rw [ident]
  cases hchars : name.toList.map safe with
  | nil => decide
  | cons c cs =>
    rw [hchars] at hall
    rw [unbroken_ofList]
    split <;> simp_all

@[simp] theorem Name.unbroken_upper (name : String) : Unbroken (upper name) := by
  rw [upper, unbroken_ofList, List.mem_map]
  rintro ⟨c,hc,hupper⟩
  have hcode := toNat_upperChar c
  have hnewline : '\n'.toNat = 10 := rfl
  rw [hupper, hnewline] at hcode
  split at hcode
  next => omega
  next => exact unbroken_ident name (Char.toNat_inj.mp (hnewline.trans hcode) ▸ hc)

@[simp] theorem unbroken_enumeration {names : List String} :
    Unbroken (enumeration names) ↔ AreUnbroken names := by
  simp +decide [enumeration]

@[simp] theorem unbroken_initializer {values : List String} :
    Unbroken (initializer values) ↔ AreUnbroken values := by
  simp +decide [initializer]

@[simp] theorem unbroken_constant {name : String} {value : Nat} :
    Unbroken (constant name value) ↔ Unbroken name := by
  simp +decide [constant]

end Code

end Cartridge
