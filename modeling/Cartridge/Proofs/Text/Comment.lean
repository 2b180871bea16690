import Cartridge.Proofs.Text.Unbroken
import Mathlib.Data.List.Infix

/-!
Comments and what ends them. A comment ends where its terminator stands for the first time, so a text inside must not
hold the two characters side by side. A text that is parted from its neighbours by other characters makes no terminator
with them, and a sanitized text holds none.
-/
namespace Cartridge.Text

def terminator : List Char := ['*', '/']

def Terminates (text : String) : Prop := terminator <:+: text.toList

instance (text : String) : Decidable (Terminates text) := inferInstanceAs (Decidable (_ <:+: _))

/-- A comment in which the terminator occurs at the end only. -/
def EndsItself (text : String) : Prop :=
  ∃ body, text.toList = ['/', '*'] ++ body ++ terminator ∧
    ∀ before after, body ++ terminator = before ++ terminator ++ after → after = []

theorem EndsItself.ne_empty {text : String} (h : EndsItself text) : text ≠ "" := by
  rintro rfl
  obtain ⟨body,hbody,-⟩ := h
  simp at hbody

variable {c : Char} {cs xs ys : List Char}

theorem terminator_infix_cons : terminator <:+: c :: cs ↔ (c = '*' ∧ cs.head? = some '/') ∨ terminator <:+: cs := by
  have hfirst : terminator <+: c :: cs ↔ c = '*' ∧ cs.head? = some '/' := by
    cases cs <;> simp [terminator, List.cons_prefix_cons, eq_comm]
  rw [List.infix_cons_iff, hfirst]

/-- No terminator reaches across another character. -/
theorem terminator_infix_append_cons (hc : c ∉ terminator) :
    terminator <:+: xs ++ c :: ys ↔ terminator <:+: xs ∨ terminator <:+: ys := by
  obtain ⟨hstar,hslash⟩ : c ≠ '*' ∧ c ≠ '/' := by simpa [terminator] using hc
  induction xs with
  | nil =>
    rw [List.nil_append, terminator_infix_cons]
    simp [hstar, terminator]
  | cons x xs ih =>
    have hhead : (xs ++ c :: ys).head? = some '/' ↔ xs.head? = some '/' := by
      cases xs <;> simp [hslash]
    rw [List.cons_append, terminator_infix_cons, terminator_infix_cons, ih, hhead, or_assoc]

theorem not_terminator_infix_append_cons (hc : c ∉ terminator) (hxs : ¬terminator <:+: xs)
    (hys : ¬terminator <:+: ys) : ¬terminator <:+: xs ++ c :: ys :=
  fun h => ((terminator_infix_append_cons hc).mp h).elim hxs hys

theorem head?_sanitizeChars (cs : List Char) : (sanitizeChars cs).head? = cs.head? := by
  fun_cases sanitizeChars cs <;> rfl

/-- A sanitized text holds no terminator. -/
theorem not_terminator_infix_sanitizeChars (cs : List Char) : ¬terminator <:+: sanitizeChars cs := by
  fun_induction sanitizeChars cs with
  | case1 rest ih =>
    rw [terminator_infix_cons, terminator_infix_cons, terminator_infix_cons]
    simp [ih]
  | case2 c rest hpair ih =>
    rw [terminator_infix_cons, head?_sanitizeChars]
    rintro (⟨rfl,hhead⟩ | hrest)
    · obtain ⟨more,rfl⟩ := List.head?_eq_some_iff.mp hhead
      exact hpair more rfl rfl
    · exact ih hrest
  | case3 => simp [terminator]

/-- A comment ends itself if and only if no terminator stands between its two ends. -/
theorem endsItself_iff {text : String} {body : List Char}
    (htext : text.toList = ['/', '*'] ++ body ++ ' ' :: terminator) :
    EndsItself text ↔ ¬terminator <:+: body := by
  have hbody : text.toList = ['/', '*'] ++ (body ++ [' ']) ++ terminator := by simp [htext]
  constructor
  · rintro ⟨own,hown,hend⟩ ⟨before,after,hinner⟩
    obtain rfl : body ++ [' '] = own := by
      rw [hbody] at hown
      exact List.append_cancel_left (List.append_cancel_right hown)
    have hafter : after ++ ' ' :: terminator = [] := hend before _ (by simp [← hinner])
    simp at hafter
  · intro hinner
    refine ⟨body ++ [' '],hbody,fun before after h => ?_⟩
    by_contra hafter
    have hlast : terminator <:+: body ++ ' ' :: ['*'] := by
      refine ⟨before,after.dropLast,?_⟩
      have hdrop := congrArg List.dropLast h
      rw [List.dropLast_append_of_ne_nil hafter] at hdrop
      simpa [terminator] using hdrop.symm
    rw [terminator_infix_append_cons (by decide)] at hlast
    exact hlast.elim hinner (by decide)

end Cartridge.Text
