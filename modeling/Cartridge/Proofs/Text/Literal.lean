import Cartridge.Expr.Text
import Cartridge.Json.Token
import Mathlib.Data.List.Chain
import Mathlib.Tactic.Common

/-!
What a compiler reads in the literal of a text. An escape in hexadecimal has no end of its own: it takes all digits
that follow. A byte that is written in two digits is read back only if the character behind it is no such digit, so
that the literal of a text is read as the text's own bytes if and only if no character that is written in hexadecimal
stands in front of a digit.
-/
namespace Cartridge.CString

open Json.Token (hexDigit?)

def isHexDigit (c : Char) : Bool := (hexDigit? c).isSome

def hexNumber (digits : List Char) : Nat := digits.foldl (fun n c => n * 16 + (hexDigit? c).getD 0) 0

/-- The byte behind `\x`: all hexadecimal digits in front, of which there must be one, and their number a byte. -/
def hexEscape? (cs : List Char) : Option UInt8 :=
  let digits := cs.takeWhile isHexDigit
  if digits ≠ [] ∧ hexNumber digits < UInt8.size then some (.ofNat (hexNumber digits)) else none

def simpleEscape? : Char → Option UInt8
  | '\'' => some 0x27
  | '"' => some 0x22
  | '?' => some 0x3f
  | '\\' => some 0x5c
  | 'a' => some 0x07
  | 'b' => some 0x08
  | 'f' => some 0x0c
  | 'n' => some 0x0a
  | 'r' => some 0x0d
  | 't' => some 0x09
  | 'v' => some 0x0b
  | _ => none

def inside? : List Char → Option (List UInt8)
  | [] => none
  | ['"'] => some []
  | '\\' :: 'x' :: cs =>
    match hexEscape? cs with
    | some b => (inside? (cs.dropWhile isHexDigit)).map (b :: ·)
    | none => none
  | '\\' :: c :: cs =>
    match simpleEscape? c with
    | some b => (inside? cs).map (b :: ·)
    | none => none
  | c :: cs =>
    if c = '"' ∨ c = '\\' ∨ c = '\n' then none else (inside? cs).map (String.utf8EncodeChar c ++ ·)
termination_by cs => cs.length
decreasing_by
  · have hle := (List.dropWhile_sublist isHexDigit (l := cs)).length_le
    simp only [List.length_cons]
    omega
  · simp only [List.length_cons]
    omega
  · simp

/-- The bytes of a string literal: escapes of one character, escapes in hexadecimal, and other characters in UTF-8. -/
def read? (text : String) : Option (List UInt8) :=
  match text.toList with
  | '"' :: cs => inside? cs
  | _ => none

/-- Characters whose bytes are written in hexadecimal: those outside printable ASCII that have no escape. -/
def IsHexed (c : Char) : Prop :=
  ¬(0x20 ≤ c.toNat ∧ c.toNat ≤ 0x7e) ∧ c ≠ '\n' ∧ c ≠ '\r' ∧ c ≠ '\t'

instance (c : Char) : Decidable (IsHexed c) := inferInstanceAs (Decidable (_ ∧ _))

def Apart (c d : Char) : Prop := IsHexed c → isHexDigit d = false

instance : DecidableRel Apart := fun c d => inferInstanceAs (Decidable (IsHexed c → isHexDigit d = false))

section
variable {c d : Char} {cs : List Char} {b : UInt8}

private def closed (cs : List Char) : List Char := cs.flatMap escapeChar ++ ['"']

private theorem closed_cons : closed (c :: cs) = escapeChar c ++ closed cs := by
  rw [closed, List.flatMap_cons, List.append_assoc, closed]

private theorem isHexDigit_hexByte (b : UInt8) : ∀ d ∈ hexByte b, isHexDigit d = true := by
  have hdigit : ∀ n < 16, isHexDigit (hexDigits.getD n '0') = true := by decide
  have hb := b.toNat_lt
  simp only [hexByte, List.mem_cons, List.not_mem_nil, or_false, forall_eq_or_imp, forall_eq]
  exact ⟨hdigit _ (by omega),hdigit _ (by omega)⟩

private theorem hexNumber_hexByte (b : UInt8) : hexNumber (hexByte b) = b.toNat := by
  have hdigit : ∀ n < 16, hexDigit? (hexDigits.getD n '0') = some n := by decide
  have hb := b.toNat_lt
  simp only [hexNumber, hexByte, List.foldl_cons, List.foldl_nil, hdigit _ (show b.toNat / 16 < 16 by omega),
    hdigit _ (show b.toNat % 16 < 16 by omega), Option.getD_some]
  omega

/-- The escape of a byte takes the digits that follow. -/
private theorem inside?_hexByte (b : UInt8) (cs : List Char) :
    inside? ('\\' :: 'x' :: hexByte b ++ cs) =
      match hexEscape? (hexByte b ++ cs) with
      | some x => (inside? (cs.dropWhile isHexDigit)).map (x :: ·)
      | none => none := by
  rw [List.cons_append, List.cons_append, inside?, List.dropWhile_append_of_pos (isHexDigit_hexByte b)]

private theorem dropWhile_eq_self (h : cs.takeWhile isHexDigit = []) : cs.dropWhile isHexDigit = cs := by
  have happend := List.takeWhile_append_dropWhile (p := isHexDigit) (l := cs)
  rwa [h, List.nil_append] at happend

private theorem takeWhile_eq_nil_iff :
    cs.takeWhile isHexDigit = [] ↔ ∀ d ∈ cs.head?, isHexDigit d = false := by
  cases cs with
  | nil => simp
  | cons d cs => simp [List.takeWhile_cons]

/-- Without digits behind it the escape of a byte is read as the byte. -/
private theorem inside?_hexByte_of_apart (b : UInt8) (h : cs.takeWhile isHexDigit = []) :
    inside? ('\\' :: 'x' :: hexByte b ++ cs) = (inside? cs).map (b :: ·) := by
  have hrun : (hexByte b ++ cs).takeWhile isHexDigit = hexByte b := by
    rw [List.takeWhile_append_of_pos (isHexDigit_hexByte b), h, List.append_nil]
  have hescape : hexEscape? (hexByte b ++ cs) = some b := by
    rw [hexEscape?, hrun, hexNumber_hexByte, if_pos ⟨by simp [hexByte],b.toNat_lt⟩, UInt8.ofNat_toNat]
  rw [inside?_hexByte, hescape, dropWhile_eq_self h]

/-- A byte that another one follows is read as it is. -/
private theorem inside?_hexBytes (bs : List UInt8) (b : UInt8) (cs : List Char) :
    inside? ((bs ++ [b]).flatMap (fun b => '\\' :: 'x' :: hexByte b) ++ cs) =
      (inside? ('\\' :: 'x' :: hexByte b ++ cs)).map (bs ++ ·) := by
  induction bs with
  | nil => simp
  | cons a bs ih =>
    have hnext : ((bs ++ [b]).flatMap (fun b => '\\' :: 'x' :: hexByte b) ++ cs).takeWhile isHexDigit = [] := by
      cases bs with
      | nil => rfl
      | cons => rfl
    rw [List.cons_append, List.flatMap_cons, List.append_assoc, inside?_hexByte_of_apart a hnext, ih,
      Option.map_map]
    rfl

private theorem escapeChar_of_isHexed (h : IsHexed c) :
    escapeChar c = (String.utf8EncodeChar c).flatMap fun b => '\\' :: 'x' :: hexByte b := by
  obtain ⟨hplain,hn,hr,ht⟩ := h
  have hquote : c ≠ '"' := by
    rintro rfl
    exact hplain (by decide)
  have hslash : c ≠ '\\' := by
    rintro rfl
    exact hplain (by decide)
  rw [escapeChar, if_neg hquote, if_neg hslash, if_neg hn, if_neg hr, if_neg ht, if_neg hplain]

private theorem inside?_simple (hx : c ≠ 'x') (hb : simpleEscape? c = some b) (cs : List Char) :
    inside? ('\\' :: c :: cs) = (inside? cs).map (b :: ·) := by
  rw [inside?, hb]
  exact hx

private theorem inside?_plain (hq : c ≠ '"') (hb : c ≠ '\\') (hn : c ≠ '\n') (cs : List Char) :
    inside? (c :: cs) = (inside? cs).map (String.utf8EncodeChar c ++ ·) := by
  rw [inside?, if_neg (by simp [hq, hb, hn])]
  · exact fun h => absurd h hq
  · exact fun _ h => absurd h hb
  · exact fun _ _ h => absurd h hb

/-- Other characters are read as their own bytes, whatever follows. -/
private theorem inside?_escapeChar (h : ¬IsHexed c) (cs : List Char) :
    inside? (escapeChar c ++ cs) = (inside? cs).map (String.utf8EncodeChar c ++ ·) := by
  unfold escapeChar
  split_ifs with hq hb hn hr ht hp
  · subst hq
    exact inside?_simple (by decide) rfl cs
  · subst hb
    exact inside?_simple (by decide) rfl cs
  · subst hn
    exact inside?_simple (by decide) rfl cs
  · subst hr
    exact inside?_simple (by decide) rfl cs
  · subst ht
    exact inside?_simple (by decide) rfl cs
  · exact inside?_plain hq hb hn cs
  · exact absurd ⟨hp,hn,hr,ht⟩ h

private theorem escapeChar_of_isHexDigit (h : isHexDigit c = true) : escapeChar c = [c] := by
  have hprintable : 0x20 ≤ c.toNat ∧ c.toNat ≤ 0x7e := by
    rw [isHexDigit, hexDigit?] at h
    simp only [Char.isDigit, ge_iff_le, Bool.and_eq_true, decide_eq_true_eq, Char.le_def,
      UInt32.le_iff_toNat_le] at h
    split_ifs at h with hdigit hlower hupper
    · exact ⟨Nat.le_trans (by decide) hdigit.1,Nat.le_trans hdigit.2 (by decide)⟩
    · exact ⟨Nat.le_trans (by decide) hlower.1,Nat.le_trans hlower.2 (by decide)⟩
    · exact ⟨Nat.le_trans (by decide) hupper.1,Nat.le_trans hupper.2 (by decide)⟩
    · cases h
  have hne (d : Char) (hd : isHexDigit d = false) : c ≠ d := by
    rintro rfl
    cases hd.symm.trans h
  rw [escapeChar, if_neg (hne _ (by decide)), if_neg (hne _ (by decide)), if_neg (hne _ (by decide)),
    if_neg (hne _ (by decide)), if_neg (hne _ (by decide)), if_pos hprintable]

/-- An escape does not start with a digit. -/
private theorem exists_escapeChar_cons (h : isHexDigit c = false) :
    ∃ d ds, escapeChar c = d :: ds ∧ isHexDigit d = false := by
  unfold escapeChar
  split_ifs
  all_goals try exact ⟨'\\',_,rfl,by decide⟩
  · exact ⟨c,[],rfl,h⟩
  · obtain ⟨b,bs,hbytes⟩ := List.exists_cons_of_ne_nil (String.utf8EncodeChar_ne_nil (c := c))
    rw [hbytes]
    exact ⟨'\\',_,rfl,by decide⟩

/-- The digits in front of a text are those in front of its escape. -/
private theorem digits_closed (cs : List Char) :
    (closed cs).takeWhile isHexDigit = cs.takeWhile isHexDigit ∧
      (closed cs).dropWhile isHexDigit = closed (cs.dropWhile isHexDigit) := by
  induction cs with
  | nil => exact ⟨rfl,rfl⟩
  | cons c cs ih =>
    rw [closed_cons]
    cases hc : isHexDigit c with
    | true => simp [escapeChar_of_isHexDigit hc, hc, ih]
    | false =>
      obtain ⟨d,ds,he,hd⟩ := exists_escapeChar_cons hc
      simp [he, hd, hc, closed_cons]

/-- The escape of a character in hexadecimal is the escape of its bytes, the last of which takes what follows. -/
private theorem exists_last_byte (h : IsHexed c) (cs : List Char) :
    ∃ bs b, String.utf8EncodeChar c = bs ++ [b] ∧
      inside? (escapeChar c ++ cs) = (inside? ('\\' :: 'x' :: hexByte b ++ cs)).map (bs ++ ·) := by
  have hbytes := List.dropLast_append_getLast (String.utf8EncodeChar_ne_nil (c := c))
  refine ⟨_,_,hbytes.symm,?_⟩
  rw [escapeChar_of_isHexed h, ← inside?_hexBytes, hbytes]

private theorem inside?_hexed_of_apart (h : IsHexed c) (hcs : cs.takeWhile isHexDigit = []) :
    inside? (escapeChar c ++ cs) = (inside? cs).map (String.utf8EncodeChar c ++ ·) := by
  obtain ⟨bs,b,hbytes,hread⟩ := exists_last_byte h cs
  rw [hread, inside?_hexByte_of_apart b hcs, Option.map_map, hbytes]
  congr 1
  funext more
  simp

/-- A character in hexadecimal is read as many bytes as it has, and the digits behind it as none. -/
private theorem exists_inside?_of_hexed (h : IsHexed c) {bytes : List UInt8}
    (hread : inside? (escapeChar c ++ cs) = some bytes) :
    ∃ more, inside? (cs.dropWhile isHexDigit) = some more ∧
      bytes.length = (String.utf8EncodeChar c).length + more.length := by
  obtain ⟨bs,b,hbytes,hlast⟩ := exists_last_byte h cs
  rw [hlast, inside?_hexByte] at hread
  obtain ⟨tail,htail,rfl⟩ := Option.map_eq_some_iff.mp hread
  cases hescape : hexEscape? (hexByte b ++ cs) with
  | none =>
    rw [hescape] at htail
    cases htail
  | some x =>
    rw [hescape] at htail
    obtain ⟨more,hmore,rfl⟩ := Option.map_eq_some_iff.mp htail
    refine ⟨more,hmore,?_⟩
    rw [hbytes]
    simp only [List.length_append, List.length_cons, List.length_nil]
    omega

private def utf8 (cs : List Char) : List UInt8 := cs.flatMap String.utf8EncodeChar

private theorem utf8_cons : utf8 (c :: cs) = String.utf8EncodeChar c ++ utf8 cs := List.flatMap_cons

private theorem length_le_utf8 (cs : List Char) : cs.length ≤ (utf8 cs).length := by
  induction cs with
  | nil => exact Nat.le_refl 0
  | cons c cs ih =>
    have hpos : 0 < (String.utf8EncodeChar c).length := List.length_pos_of_ne_nil String.utf8EncodeChar_ne_nil
    rw [utf8_cons, List.length_append, List.length_cons]
    omega

/-- Digits count among the bytes of a text. -/
private theorem length_utf8_dropWhile (cs : List Char) :
    (cs.takeWhile isHexDigit).length + (utf8 (cs.dropWhile isHexDigit)).length ≤ (utf8 cs).length := by
  have hsplit : utf8 cs = utf8 (cs.takeWhile isHexDigit) ++ utf8 (cs.dropWhile isHexDigit) := by
    rw [utf8, utf8, utf8, ← List.flatMap_append, List.takeWhile_append_dropWhile]
  have hle := length_le_utf8 (cs.takeWhile isHexDigit)
  rw [hsplit, List.length_append]
  omega

private theorem inside?_closed_of_isChain (h : cs.IsChain Apart) : inside? (closed cs) = some (utf8 cs) := by
  induction cs with
  | nil => rw [closed, List.flatMap_nil, List.nil_append, inside?, utf8, List.flatMap_nil]
  | cons c cs ih =>
    rw [closed_cons, utf8_cons]
    by_cases hc : IsHexed c
    · have hnext : (closed cs).takeWhile isHexDigit = [] := by
        rw [(digits_closed cs).1, takeWhile_eq_nil_iff]
        exact fun d hd => (List.isChain_cons.mp h).1 d hd hc
      rw [inside?_hexed_of_apart hc hnext, ih h.tail]
      rfl
    · rw [inside?_escapeChar hc, ih h.tail]
      rfl

/-- A literal is never read as more bytes than its text has, and only then as many if characters in hexadecimal are
followed by no digits. -/
private theorem length_inside?_closed {bytes : List UInt8} (h : inside? (closed cs) = some bytes) :
    bytes.length ≤ (utf8 cs).length ∧ (bytes.length = (utf8 cs).length → cs.IsChain Apart) := by
  induction hn : cs.length using Nat.strongRecOn generalizing cs bytes with
  | _ n ih =>
  subst hn
  cases cs with
  | nil =>
    rw [closed, List.flatMap_nil, List.nil_append, inside?] at h
    cases h
    exact ⟨Nat.le_refl _,fun _ => .nil⟩
  | cons c cs =>
    rw [closed_cons] at h
    rw [utf8_cons, List.length_append]
    by_cases hc : IsHexed c
    · obtain ⟨more,hmore,hlength⟩ := exists_inside?_of_hexed hc h
      rw [(digits_closed cs).2] at hmore
      have hdrop := (List.dropWhile_sublist isHexDigit (l := cs)).length_le
      obtain ⟨hle,hchain⟩ := ih _ (Nat.lt_succ_of_le hdrop) hmore rfl
      have hbytes := length_utf8_dropWhile cs
      refine ⟨by omega,fun heq => ?_⟩
      have hdigits : cs.takeWhile isHexDigit = [] := List.eq_nil_of_length_eq_zero (by omega)
      rw [dropWhile_eq_self hdigits] at hchain hbytes hle
      exact List.isChain_cons.mpr ⟨fun d hd _ => takeWhile_eq_nil_iff.mp hdigits d hd,hchain (by omega)⟩
    · rw [inside?_escapeChar hc] at h
      obtain ⟨more,hmore,rfl⟩ := Option.map_eq_some_iff.mp h
      obtain ⟨hle,hchain⟩ := ih _ (Nat.lt_succ_self _) hmore rfl
      rw [List.length_append]
      exact ⟨by omega,fun heq => List.isChain_cons.mpr ⟨fun _ _ h => absurd h hc,hchain (by omega)⟩⟩

theorem read?_quoted (s : String) : read? ("\"" ++ escape s ++ "\"") = inside? (closed s.toList) := by
  simp [read?, closed, escape]

/-- The literal of a text is read as the bytes of the text if and only if no character that is written in hexadecimal
stands in front of a hexadecimal digit. -/
theorem literal_is_read_back_iff (s : String) :
    (read? ("\"" ++ escape s ++ "\"")).map List.toByteArray = some s.toUTF8 ↔ s.toList.IsChain Apart := by
  have hbytes : s.toUTF8 = (utf8 s.toList).toByteArray := (String.utf8Encode_toList (b := s)).symm
  rw [read?_quoted, hbytes]
  constructor
  · intro h
    obtain ⟨bytes,hread,heq⟩ := Option.map_eq_some_iff.mp h
    rw [List.toByteArray_inj] at heq
    exact (length_inside?_closed hread).2 (heq ▸ rfl)
  · intro h
    rw [inside?_closed_of_isChain h, Option.map_some]

/-- The letter behind é is taken for a digit of its second byte, and `\xa9a` is no byte. -/
theorem literal_of_accent_is_misread :
    (read? ("\"" ++ escape "éa" ++ "\"")).map List.toByteArray ≠ some "éa".toUTF8 := by
  have hclosed : closed "éa".toList = ['\\', 'x', 'c', '3', '\\', 'x', 'a', '9', 'a', '"'] := by decide
  have hfirst : hexEscape? ['c', '3', '\\', 'x', 'a', '9', 'a', '"'] = some 0xc3 := by decide
  have hsecond : hexEscape? ['a', '9', 'a', '"'] = none := by decide
  have hdrop : ['c', '3', '\\', 'x', 'a', '9', 'a', '"'].dropWhile isHexDigit = ['\\', 'x', 'a', '9', 'a', '"'] := rfl
  rw [read?_quoted, hclosed, inside?, hfirst, hdrop]
  simp [inside?, hsecond]

end

end Cartridge.CString
