import Mathlib.Tactic.Common
import Cartridge.Expr.Text

/-!
The tokens of C text. Words and signs are read as long as they can be, so two lexemes that stand
side by side must not grow together; those of an expression never do.
-/
namespace Cartridge

/-- A token of C. The inside of a string literal is kept as it is written. -/
inductive Token where
  | name (s : String)
  | number (n : Nat)
  | text (raw : String)
  | sign (s : String)
  deriving DecidableEq, Repr

namespace Token

/-- The signs of C, longer ones first. The openings of comments count among them. -/
def signs : List String :=
  ["%:%:", "...", "<<=", ">>=", "->", "++", "--", "<<", ">>", "<=", ">=", "==", "!=", "&&", "||",
    "*=", "/=", "%=", "+=", "-=", "&=", "^=", "|=", "##", "<:", ":>", "<%", "%>", "%:", "//", "/*",
    "[", "]", "(", ")", "\x7b", "\x7d", ".", "&", "*", "+", "-", "~", "!", "/", "%", "<", ">", "^",
    "|", "?", ":", ";", "=", ",", "#"]

def isWordChar (c : Char) : Bool := c.isAlphanum || c = '_'

def isIdentifier (s : String) : Bool :=
  match s.toList with
  | [] => false
  | c :: cs => isWordChar c && !c.isDigit && cs.all isWordChar

/-- The token a run of word characters is. A number is decimal, so zero leads only itself. -/
def ofWord? : List Char → Option Token
  | [] => none
  | c :: cs =>
    if !c.isDigit then some (.name (String.ofList (c :: cs)))
    else if cs.all Char.isDigit && (c ≠ '0' || cs.isEmpty) then
      some (.number (Nat.ofDigitChars 10 (c :: cs) 0))
    else none

def quoted? : List Char → Option (List Char × List Char)
  | [] => none
  | '"' :: cs => some ([],cs)
  | '\\' :: c :: cs => (quoted? cs).map fun (raw,rest) => ('\\' :: c :: raw,rest)
  | c :: cs => if c = '\n' then none else (quoted? cs).map fun (raw,rest) => (c :: raw,rest)

def sign? (cs : List Char) : Option String := signs.find? fun s => s.toList.isPrefixOf cs

def next? (c : Char) (cs : List Char) : Option (Token × List Char) :=
  if isWordChar c then
    (ofWord? (c :: cs.takeWhile isWordChar)).map (·,cs.dropWhile isWordChar)
  else if c = '"' then (quoted? cs).map fun (raw,rest) => (.text (String.ofList raw),rest)
  else (sign? (c :: cs)).map fun s => (.sign s,cs.drop (s.length - 1))

theorem quoted?_length_le {cs raw rest : List Char} (h : quoted? cs = some (raw,rest)) :
    rest.length ≤ cs.length := by
  fun_induction quoted? cs generalizing raw rest with
  | case1 => cases h
  | case2 cs =>
    cases h
    simp
  | case3 c cs ih =>
    obtain ⟨⟨raw,rest⟩,hq,he⟩ := Option.map_eq_some_iff.mp h
    cases he
    have := ih hq
    simp only [List.length_cons]
    omega
  | case4 => cases h
  | case5 c cs _ _ hc ih =>
    obtain ⟨⟨raw,rest⟩,hq,he⟩ := Option.map_eq_some_iff.mp h
    cases he
    have := ih hq
    simp only [List.length_cons]
    omega

theorem next?_length_le {c : Char} {cs rest : List Char} {t : Token}
    (h : next? c cs = some (t,rest)) : rest.length ≤ cs.length := by
  unfold next? at h
  split at h
  · obtain ⟨u,-,he⟩ := Option.map_eq_some_iff.mp h
    cases he
    exact (List.dropWhile_sublist _).length_le
  · split at h
    · obtain ⟨⟨raw,r⟩,hq,he⟩ := Option.map_eq_some_iff.mp h
      cases he
      exact quoted?_length_le hq
    · obtain ⟨s,-,he⟩ := Option.map_eq_some_iff.mp h
      cases he
      simp

def scan : List Char → Option (List Token)
  | [] => some []
  | c :: cs =>
    if c = ' ' then scan cs
    else match _h : next? c cs with
      | none => none
      | some (t,rest) => (scan rest).map (t :: ·)
termination_by cs => cs.length
decreasing_by
  · simp
  · have := next?_length_le _h
    simp only [List.length_cons]
    omega

end Token

end Cartridge
