import Mathlib.Tactic.Common
import Cartridge.Json.Printer
import Cartridge.Json.Reader
import Cartridge.Proofs.Number.Digits

/-!
A written document is scanned into its own words, whatever blanks the layout puts between them.
Quoting a text and reading it back gives the same characters, and a number ends where its text does.
-/
namespace Cartridge.Json

mutual

def words : Json → List Token
  | .null => [.null]
  | .bool b => [.bool b]
  | .num n => [.num n]
  | .str s => [.str s]
  | .arr [] => [.openArr, .closeArr]
  | .arr (item :: items) => .openArr :: words item ++ wordsOfItems items ++ [.closeArr]
  | .obj [] => [.openObj, .closeObj]
  | .obj ((k, v) :: members) =>
    .openObj :: .str k :: .colon :: words v ++ wordsOfMembers members ++ [.closeObj]

def wordsOfItems : List Json → List Token
  | [] => []
  | item :: items => .comma :: words item ++ wordsOfItems items

def wordsOfMembers : List (Option String × Json) → List Token
  | [] => []
  | (k, v) :: members => .comma :: .str k :: .colon :: words v ++ wordsOfMembers members

end

mutual

/-- Every text of a document is a string, and every fraction a run of digits. -/
def IsPlain : Json → Prop
  | .null | .bool _ => True
  | .num n => ∀ c ∈ n.fraction, c.isDigit = true
  | .str s => s.isSome
  | .arr items => ArePlain items
  | .obj members => ArePlainMembers members

def ArePlain : List Json → Prop
  | [] => True
  | item :: items => IsPlain item ∧ ArePlain items

def ArePlainMembers : List (Option String × Json) → Prop
  | [] => True
  | (k, v) :: members => k.isSome ∧ IsPlain v ∧ ArePlainMembers members

end

/-- Blanks are all a layout puts between words. -/
structure Layout.IsBlank (l : Layout) : Prop where
  lineBreak : ∀ depth, ∀ c ∈ l.lineBreak depth, Token.isBlank c = true
  afterKey : ∃ blanks, l.afterKey = ':' :: blanks ∧ ∀ c ∈ blanks, Token.isBlank c = true

namespace Token

def Parted (rest : List Char) : Prop :=
  ∀ c ∈ rest.head?, c.isDigit = false ∧ c ≠ '.' ∧ c ≠ 'e' ∧ c ≠ 'E'

private theorem digits_append {ds rest : List Char} (hd : ∀ c ∈ ds, c.isDigit = true)
    (hr : ∀ c ∈ rest.head?, c.isDigit = false) : digits (ds ++ rest) = (ds, rest) := by
  rw [digits, List.takeWhile_append_of_pos hd, List.dropWhile_append_of_pos hd]
  cases rest with
  | nil => simp
  | cons c rest => simp [hr c rfl]

private theorem natOf_toDigits (n : Nat) : natOf (Nat.toDigits 10 n) = n :=
  Nat.ofDigitChars_ten_toDigits

private theorem power?_toDigits (negative : Bool) (n : Nat) {rest : List Char} (hr : Parted rest) :
    power? negative (Nat.toDigits 10 n ++ rest) =
      some (some (if negative then -(n : Int) else n), rest) := by
  rw [power?, digits_append (fun c hc => isDigit_of_mem_toDigits hc) fun c hc => (hr c hc).1]
  cases hd : Nat.toDigits 10 n with
  | nil => exact absurd hd Nat.toDigits_ne_nil
  | cons c cs =>
    simp only
    rw [← hd, natOf_toDigits]

private theorem exponent?_exponentText (e : Option Int) {rest : List Char} (hr : Parted rest) :
    exponent? (Number.exponentText e ++ rest) = some (e, rest) := by
  cases e with
  | none =>
    cases rest with
    | nil => rfl
    | cons c rest => simp [Number.exponentText, exponent?, hr c rfl]
  | some e =>
    by_cases he : e < 0
    · have habs : -(e.natAbs : Int) = e := by omega
      simp only [Number.exponentText, if_pos he, List.cons_append, exponent?, true_or, if_true]
      rw [power?_toDigits true _ hr, if_pos rfl, habs]
    · have habs : (e.natAbs : Int) = e := by omega
      simp only [Number.exponentText, if_neg he, List.cons_append, exponent?, true_or, if_true]
      rw [power?_toDigits false _ hr, if_neg Bool.false_ne_true, habs]

private theorem head?_exponentText {e : Option Int} {rest : List Char} (hr : Parted rest) :
    ∀ c ∈ (Number.exponentText e ++ rest).head?, c.isDigit = false ∧ c ≠ '.' := by
  cases e with
  | none => exact fun c hc => ⟨(hr c hc).1,(hr c hc).2.1⟩
  | some e => simp [Number.exponentText]

private theorem fraction?_append {fraction after : List Char}
    (hf : ∀ c ∈ fraction, c.isDigit = true)
    (ha : ∀ c ∈ after.head?, c.isDigit = false ∧ c ≠ '.') :
    fraction? ((if fraction.isEmpty then [] else '.' :: fraction) ++ after) =
      some (fraction, after) := by
  cases fraction with
  | nil =>
    cases after with
    | nil => rfl
    | cons c after =>
      simp only [List.isEmpty_nil, if_true, List.nil_append]
      rw [fraction?.eq_def]
      split
      next he =>
        cases he
        exact absurd rfl (ha _ rfl).2
      next => rfl
  | cons c cs =>
    simp only [List.isEmpty_cons, Bool.false_eq_true, if_false, List.cons_append, fraction?]
    rw [← List.cons_append, digits_append hf fun c hc => (ha c hc).1]

private theorem number?_text {n : Number} (hn : ∀ c ∈ n.fraction, c.isDigit = true)
    {rest : List Char} (hr : Parted rest) :
    number? n.negative (Nat.toDigits 10 n.whole
      ++ ((if n.fraction.isEmpty then [] else '.' :: n.fraction)
        ++ (Number.exponentText n.exponent ++ rest))) = some (n, rest) := by
  have hafter := head?_exponentText (e := n.exponent) hr
  have hhead : ∀ c ∈ ((if n.fraction.isEmpty then [] else '.' :: n.fraction)
      ++ (Number.exponentText n.exponent ++ rest)).head?, c.isDigit = false := by
    cases n.fraction with
    | nil => exact fun c hc => (hafter c hc).1
    | cons c cs => simp
  rw [number?, digits_append (fun c hc => isDigit_of_mem_toDigits hc) hhead]
  split
  next hd => exact absurd (congrArg Prod.fst hd) Nat.toDigits_ne_nil
  next hd =>
    have hd := congrArg Prod.fst hd
    rcases Nat.eq_zero_or_pos n.whole with hz | hpos
    · simp [hz] at hd
    · obtain ⟨c,cs,he,hc⟩ := toDigits_head hpos
      simp only [he, List.cons.injEq] at hd
      exact absurd hd.1 hc
  next hd =>
    cases hd
    rw [fraction?_append hn hafter]
    simp only [bind, Option.bind_some]
    rw [exponent?_exponentText _ hr]
    simp [natOf_toDigits]

private theorem next?_digit {c : Char} (hc : c.isDigit = true) (cs : List Char) :
    next? (c :: cs) = (number? false (c :: cs)).map fun (n, rest) => (.num n, rest) := by
  rw [next?.eq_def]
  split
  case h_12 => rfl
  all_goals
    next he =>
      cases he
      exact absurd hc (by decide)

theorem next?_number {n : Number} (hn : ∀ c ∈ n.fraction, c.isDigit = true) {rest : List Char}
    (hr : Parted rest) : next? (n.text ++ rest) = some (.num n, rest) := by
  have hread := number?_text hn hr
  simp only [Number.text, List.append_assoc]
  cases hneg : n.negative with
  | true =>
    rw [hneg] at hread
    simp only [if_true, List.cons_append, List.nil_append, next?]
    rw [hread]
    rfl
  | false =>
    rw [hneg] at hread
    simp only [Bool.false_eq_true, if_false, List.nil_append]
    cases hd : Nat.toDigits 10 n.whole with
    | nil => exact absurd hd Nat.toDigits_ne_nil
    | cons c cs =>
      have hc : c.isDigit = true := isDigit_of_mem_toDigits (n := n.whole) (by simp [hd])
      rw [hd] at hread
      rw [List.cons_append, next?_digit hc, ← List.cons_append, hread]
      rfl

private theorem hexDigit?_hexChar : ∀ n < 16, hexDigit? (hexChar n) = some n := by decide

private theorem hexUnit?_control {n : Nat} (hn : n < 0x20) :
    hexUnit? '0' '0' (hexChar (n / 16)) (hexChar (n % 16)) = some n := by
  have hzero : hexDigit? '0' = some 0 := by decide
  simp only [hexUnit?, hzero, hexDigit?_hexChar (n / 16) (by omega),
    hexDigit?_hexChar (n % 16) (by omega), bind, Option.bind_some]
  exact congrArg some (by omega)

/-- A character that is written as it is stands for itself. -/
private theorem quoted_plain {c : Char} (hquote : c ≠ '"') (hslash : c ≠ '\\')
    (hc : ¬c.toNat < 0x20) {cs rest : List Char} {units : List Nat}
    (h : quoted cs = some (units, rest)) : quoted (c :: cs) = some (c.toNat :: units, rest) := by
  rw [quoted.eq_def]
  split
  next he => cases he
  next he =>
    cases he
    exact absurd rfl hquote
  next he =>
    cases he
    exact absurd rfl hslash
  next he =>
    cases he
    exact absurd rfl hslash
  next he =>
    cases he
    simp [hslash, hc, h]

/-- A backslash and a letter stand for one character. -/
private theorem quoted_escaped {e c : Char} (hu : e ≠ 'u') (he : escaped? e = some c)
    {cs rest : List Char} {units : List Nat} (h : quoted cs = some (units, rest)) :
    quoted ('\\' :: e :: cs) = some (c.toNat :: units, rest) := by
  rw [quoted.eq_def]
  split
  next heq => cases heq
  next heq => cases heq
  next heq =>
    cases heq
    exact absurd rfl hu
  next heq =>
    cases heq
    simp [he, h]
  next hne heq =>
    cases heq
    exact absurd rfl (hne e cs rfl)

private theorem quoted_escapeChar (c : Char) {cs rest : List Char} {units : List Nat}
    (h : quoted cs = some (units, rest)) :
    quoted (escapeChar c ++ cs) = some (c.toNat :: units, rest) := by
  unfold escapeChar
  split_ifs with h₁ h₂ h₃ h₄ h₅ h₆ h₇ h₈
  · exact quoted_escaped (by decide) (by rw [h₁]; rfl) h
  · exact quoted_escaped (by decide) (by rw [h₂]; rfl) h
  · exact quoted_escaped (by decide) (by rw [h₃]; rfl) h
  · exact quoted_escaped (by decide) (by rw [h₄]; rfl) h
  · exact quoted_escaped (by decide) (by rw [h₅]; rfl) h
  · exact quoted_escaped (by decide) (by rw [h₆]; rfl) h
  · exact quoted_escaped (by decide) (by rw [h₇]; rfl) h
  · simp [quoted, hexUnit?_control h₈, h]
  · exact quoted_plain h₁ h₂ h₈ h

theorem quoted_quote (cs rest : List Char) :
    quoted (cs.flatMap escapeChar ++ '"' :: rest) = some (cs.map Char.toNat, rest) := by
  induction cs with
  | nil => rfl
  | cons c cs ih =>
    rw [List.flatMap_cons, List.append_assoc]
    exact quoted_escapeChar c ih

/-- No character is a surrogate. -/
private theorem not_surrogate (c : Char) : isLow c.toNat = false ∧ isHigh c.toNat = false := by
  have hvalid : c.toNat < 0xD800 ∨ 0xDFFF < c.toNat ∧ c.toNat < 0x110000 := c.valid
  constructor <;>
    · simp only [isLow, isHigh, decide_eq_false_iff_not]
      omega

theorem characters?_map_toNat (cs : List Char) : characters? (cs.map Char.toNat) = some cs := by
  induction cs with
  | nil => rfl
  | cons c cs ih =>
    obtain ⟨hlow,hhigh⟩ := not_surrogate c
    rw [List.map_cons, characters?.eq_def]
    simp [hlow, hhigh, ih, Char.ofNat_toNat]

theorem next?_quote (s : String) (rest : List Char) :
    next? (quote s ++ rest) = some (.str (some s), rest) := by
  have hquoted := quoted_quote s.toList rest
  simp only [quote, List.cons_append, List.append_assoc, List.nil_append, next?]
  simp only [hquoted, Option.map_some, characters?_map_toNat, String.ofList_toList]

theorem parted_nil : Parted [] := by simp [Parted]

theorem parted_cons {c : Char} {rest : List Char}
    (hc : c.isDigit = false ∧ c ≠ '.' ∧ c ≠ 'e' ∧ c ≠ 'E') : Parted (c :: rest) := by
  simpa [Parted] using hc

theorem parted_blanks {blanks rest : List Char} (hb : ∀ c ∈ blanks, isBlank c = true)
    (hr : Parted rest) : Parted (blanks ++ rest) := by
  cases blanks with
  | nil => exact hr
  | cons c blanks =>
    have hc : c = ' ' ∨ c = '\n' ∨ c = '\t' ∨ c = '\r' := by
      simpa [isBlank] using hb c (by simp)
    refine parted_cons ?_
    rcases hc with rfl | rfl | rfl | rfl <;> decide

end Token

open Cartridge.Json.Token (Parted isBlank)

theorem words?_blanks {blanks : List Char} (hb : ∀ c ∈ blanks, isBlank c = true)
    (rest : List Char) : words? (blanks ++ rest) = words? rest := by
  induction blanks with
  | nil => rfl
  | cons c blanks ih =>
    rw [List.cons_append, words?, if_pos (hb c (by simp))]
    exact ih fun d hd => hb d (by simp [hd])

/-- The first word of a text that begins with no blank, and the words after it. -/
private theorem words?_next {c : Char} {cs rest : List Char} {t : Token} {ts : List Token}
    (hc : isBlank c = false) (h : Token.next? (c :: cs) = some (t, rest))
    (hts : words? rest = some ts) : words? (c :: cs) = some (t :: ts) := by
  rw [words?, if_neg (by simp [hc])]
  split
  next hn =>
    rw [hn] at h
    cases h
  next u r hn =>
    rw [hn] at h
    cases h
    rw [hts]
    rfl

theorem words?_quote (s : String) {rest : List Char} {ts : List Token}
    (hts : words? rest = some ts) : words? (quote s ++ rest) = some (.str (some s) :: ts) :=
  words?_next (by decide) (Token.next?_quote s rest) hts

private theorem text_head (n : Number) : ∃ c cs, n.text = c :: cs ∧ isBlank c = false := by
  simp only [Number.text, List.append_assoc]
  cases n.negative with
  | true => exact ⟨_,_,rfl,by decide⟩
  | false =>
    cases hd : Nat.toDigits 10 n.whole with
    | nil => exact absurd hd Nat.toDigits_ne_nil
    | cons c cs =>
      have hc : c.isDigit = true := isDigit_of_mem_toDigits (n := n.whole) (by simp [hd])
      refine ⟨c,_,rfl,?_⟩
      simp only [isBlank, decide_eq_false_iff_not]
      rintro (rfl | rfl | rfl | rfl) <;> exact absurd hc (by decide)

theorem words?_number {n : Number} (hn : ∀ c ∈ n.fraction, c.isDigit = true) {rest : List Char}
    (hr : Parted rest) {ts : List Token} (hts : words? rest = some ts) :
    words? (n.text ++ rest) = some (.num n :: ts) := by
  have hnext := Token.next?_number hn hr
  obtain ⟨c,cs,he,hc⟩ := text_head n
  rw [he, List.cons_append] at hnext ⊢
  exact words?_next hc hnext hts

section document

variable {l : Layout}

private theorem parted_items (depth : Nat) (items : List Json) {rest : List Char}
    (hr : Parted rest) : Parted (writeItems l depth items ++ rest) := by
  cases items with
  | nil => exact hr
  | cons item items => exact Token.parted_cons (by decide)

private theorem parted_members (depth : Nat) (members : List (Option String × Json))
    {rest : List Char} (hr : Parted rest) : Parted (writeMembers l depth members ++ rest) := by
  cases members with
  | nil => exact hr
  | cons m members => exact Token.parted_cons (by decide)

variable (hl : l.IsBlank)

include hl

private theorem words?_lineBreak (depth : Nat) (rest : List Char) :
    words? (l.lineBreak depth ++ rest) = words? rest :=
  words?_blanks (hl.lineBreak depth) rest

private theorem words?_afterKey {rest : List Char} {ts : List Token}
    (hts : words? rest = some ts) : words? (l.afterKey ++ rest) = some (.colon :: ts) := by
  obtain ⟨blanks,he,hb⟩ := hl.afterKey
  rw [he, List.cons_append]
  refine words?_next (by decide) rfl ?_
  rwa [words?_blanks hb]

private theorem parted_end (depth : Nat) {c : Char} (hc : c = ']' ∨ c = '\x7d') (rest : List Char) :
    Parted (l.lineBreak depth ++ c :: rest) := by
  refine Token.parted_blanks (hl.lineBreak depth) (Token.parted_cons ?_)
  rcases hc with rfl | rfl <;> decide

mutual

/-- A written document is scanned into its words. -/
theorem words?_write : ∀ (j : Json) (_ : j.IsPlain) (depth : Nat) {rest : List Char}
    {ts : List Token} (_ : Parted rest) (_ : words? rest = some ts),
    words? (write l depth j ++ rest) = some (j.words ++ ts)
  | .null, _, _, _, _, _, hts => words?_next (by decide) rfl hts
  | .bool true, _, _, _, _, _, hts => words?_next (by decide) rfl hts
  | .bool false, _, _, _, _, _, hts => words?_next (by decide) rfl hts
  | .num _, hj, _, _, _, hr, hts => words?_number hj hr hts
  | .str (some s), _, _, _, _, _, hts => words?_quote s hts
  | .arr [], _, _, _, _, _, hts =>
    words?_next (by decide) rfl (words?_next (by decide) rfl hts)
  | .arr (item :: items), hj, depth, rest, ts, _, hts => by
    obtain ⟨hitem,hitems⟩ := hj
    have hclose : words? (l.lineBreak depth ++ ']' :: rest) = some (.closeArr :: ts) := by
      rw [words?_lineBreak hl]
      exact words?_next (by decide) rfl hts
    have hend := parted_end hl depth (.inl rfl) rest
    simp only [write, words, List.cons_append, List.nil_append, List.append_assoc]
    refine words?_next (by decide) rfl ?_
    rw [words?_lineBreak hl]
    exact words?_write item hitem _ (parted_items _ items hend)
      (words?_writeItems items hitems _ hend hclose)
  | .obj [], _, _, _, _, _, hts =>
    words?_next (by decide) rfl (words?_next (by decide) rfl hts)
  | .obj ((some k, v) :: members), hj, depth, rest, ts, _, hts => by
    obtain ⟨-,hv,hmembers⟩ := hj
    have hclose : words? (l.lineBreak depth ++ '\x7d' :: rest) = some (.closeObj :: ts) := by
      rw [words?_lineBreak hl]
      exact words?_next (by decide) rfl hts
    have hend := parted_end hl depth (.inr rfl) rest
    simp only [write, words, List.cons_append, List.nil_append, List.append_assoc]
    refine words?_next (by decide) rfl ?_
    rw [words?_lineBreak hl]
    refine words?_quote k (words?_afterKey hl ?_)
    exact words?_write v hv _ (parted_members _ members hend)
      (words?_writeMembers members hmembers _ hend hclose)

theorem words?_writeItems : ∀ (items : List Json) (_ : ArePlain items) (depth : Nat)
    {rest : List Char} {ts : List Token} (_ : Parted rest) (_ : words? rest = some ts),
    words? (writeItems l depth items ++ rest) = some (wordsOfItems items ++ ts)
  | [], _, _, _, _, _, hts => hts
  | item :: items, hj, depth, rest, ts, hr, hts => by
    simp only [writeItems, wordsOfItems, List.cons_append, List.append_assoc]
    refine words?_next (by decide) rfl ?_
    rw [words?_lineBreak hl]
    exact words?_write item hj.1 _ (parted_items _ items hr)
      (words?_writeItems items hj.2 _ hr hts)

theorem words?_writeMembers : ∀ (members : List (Option String × Json))
    (_ : ArePlainMembers members) (depth : Nat) {rest : List Char} {ts : List Token}
    (_ : Parted rest) (_ : words? rest = some ts),
    words? (writeMembers l depth members ++ rest) = some (wordsOfMembers members ++ ts)
  | [], _, _, _, _, _, hts => hts
  | (some k, v) :: members, hj, depth, rest, ts, hr, hts => by
    simp only [writeMembers, wordsOfMembers, List.cons_append, List.append_assoc]
    refine words?_next (by decide) rfl ?_
    rw [words?_lineBreak hl]
    refine words?_quote k (words?_afterKey hl ?_)
    exact words?_write v hj.2.1 _ (parted_members _ members hr)
      (words?_writeMembers members hj.2.2 _ hr hts)

end

end document

end Cartridge.Json
