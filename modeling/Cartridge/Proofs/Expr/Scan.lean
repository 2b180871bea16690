import Mathlib.Tactic.Common
import Cartridge.Proofs.Expr.Every
import Cartridge.Proofs.Expr.Token
import Cartridge.Proofs.Number.Digits

/-!
The text of an expression is scanned into its own words. Two words that stand side by side never
grow together: a word ends before a blank or a sign, and no minus sign follows another directly.
-/
namespace Cartridge

def Lexeme.token : Lexeme → Token
  | .name s => .name s
  | .number n => .number n
  | .str s => .text (CString.escape s)
  | .binary op => .sign op.token
  | .unary op => .sign op.token
  | .openParen => .sign "("
  | .closeParen => .sign ")"
  | .openBracket => .sign "["
  | .closeBracket => .sign "]"
  | .comma => .sign ","
  | .question => .sign "?"
  | .colon => .sign ":"

def Lexeme.chars (xs : List Lexeme) : List Char := xs.flatMap (·.text.toList)

theorem Expr.toList_text (e : Expr) : e.text.toList = Lexeme.chars (e.lexemes true) := by
  rw [Expr.text, String.toList_join, List.flatMap_map, Lexeme.chars]

namespace Token

def Parted (cs : List Char) : Prop := ∀ c ∈ cs.head?, isWordChar c = false

theorem scan_blank (cs : List Char) : scan (' ' :: cs) = scan cs := by
  rw [scan, if_pos rfl]

private theorem scan_cons {c : Char} {cs rest : List Char} {t : Token} (hc : c ≠ ' ')
    (h : next? c cs = some (t,rest)) : scan (c :: cs) = (scan rest).map (t :: ·) := by
  rw [scan, if_neg hc]
  split
  next hn =>
    rw [hn] at h
    cases h
  next u r hn =>
    rw [hn] at h
    cases h
    rfl

theorem isWordChar_ne {c d : Char} (hc : isWordChar c = true) (hd : isWordChar d = false) :
    c ≠ d := by
  rintro rfl
  rw [hc] at hd
  cases hd

private theorem scan_word {c : Char} {cs rest : List Char} {t : Token}
    (hw : ∀ a ∈ c :: cs, isWordChar a = true) (ht : ofWord? (c :: cs) = some t) (hr : Parted rest) :
    scan (c :: cs ++ rest) = (scan rest).map (t :: ·) := by
  have hc : isWordChar c = true := hw c (by simp)
  have hcs : ∀ a ∈ cs, isWordChar a = true := fun a ha => hw a (by simp [ha])
  have htake : rest.takeWhile isWordChar = [] := by
    cases rest with
    | nil => rfl
    | cons d rest => simp [hr d rfl]
  have hdrop : rest.dropWhile isWordChar = rest := by
    cases rest with
    | nil => rfl
    | cons d rest => simp [hr d rfl]
  rw [List.cons_append]
  apply scan_cons (isWordChar_ne hc (by decide))
  rw [next?, if_pos hc, List.takeWhile_append_of_pos hcs, List.dropWhile_append_of_pos hcs, htake,
    hdrop, List.append_nil, ht]
  rfl

theorem scan_name {s : String} {rest : List Char} (hs : isIdentifier s = true) (hr : Parted rest) :
    scan (s.toList ++ rest) = (scan rest).map (.name s :: ·) := by
  unfold isIdentifier at hs
  split at hs
  · cases hs
  next c cs he =>
    rw [he]
    simp only [Bool.and_eq_true, Bool.not_eq_true', List.all_eq_true] at hs
    obtain ⟨⟨hc,hd⟩,hcs⟩ := hs
    refine scan_word ?_ ?_ hr
    · intro a ha
      rcases List.mem_cons.mp ha with rfl | ha
      · exact hc
      · exact hcs a ha
    · simp only [ofWord?, hd, Bool.not_false, if_true]
      rw [← he, String.ofList_toList]

private theorem ofWord?_toDigits (n : Nat) :
    ofWord? (Nat.toDigits 10 n) = some (.number n) := by
  have hvalue := Nat.ofDigitChars_ten_toDigits (n := n)
  have hdigit : ∀ a ∈ Nat.toDigits 10 n, a.isDigit = true := fun _ => isDigit_of_mem_toDigits
  rcases Nat.eq_zero_or_pos n with rfl | hn
  · rfl
  · obtain ⟨c,cs,he,hc⟩ := toDigits_head hn
    rw [he] at hvalue hdigit ⊢
    have hall : cs.all Char.isDigit = true :=
      List.all_eq_true.mpr fun a ha => hdigit a (by simp [ha])
    simp [ofWord?, hdigit c (by simp), hall, hc, hvalue]

theorem scan_number (n : Nat) {rest : List Char} (hr : Parted rest) :
    scan ((toString n).toList ++ rest) = (scan rest).map (.number n :: ·) := by
  have hword := ofWord?_toDigits n
  have hdigit : ∀ a ∈ Nat.toDigits 10 n, a.isDigit = true := fun _ => isDigit_of_mem_toDigits
  rw [Nat.toString_eq_ofList_toDigits, String.toList_ofList]
  cases hd : Nat.toDigits 10 n with
  | nil => exact absurd hd Nat.toDigits_ne_nil
  | cons c cs =>
    rw [hd] at hword hdigit
    refine scan_word ?_ hword hr
    intro a ha
    simp [isWordChar, Char.isAlphanum, hdigit a ha]

private def IsPlain (c : Char) : Prop := c ≠ '"' ∧ c ≠ '\\' ∧ c ≠ '\n'

private theorem quoted?_plain {c : Char} (hc : IsPlain c) (cs : List Char) :
    quoted? (c :: cs) = (quoted? cs).map fun (raw,rest) => (c :: raw,rest) := by
  obtain ⟨hq,hb,hn⟩ := hc
  rw [quoted?.eq_def]
  split
  · contradiction
  · simp_all
  · simp_all
  · simp_all

private theorem hexDigit_isPlain {n : Nat} (hn : n < 16) : IsPlain (CString.hexDigits.getD n '0') := by
  have hall : ∀ k : Fin 16, CString.hexDigits.getD k.val '0' ≠ '"' ∧
      CString.hexDigits.getD k.val '0' ≠ '\\' ∧ CString.hexDigits.getD k.val '0' ≠ '\n' := by decide
  exact hall ⟨n,hn⟩

private theorem quoted?_hexByte (b : UInt8) (cs : List Char) :
    quoted? ('\\' :: 'x' :: CString.hexByte b ++ cs) =
      (quoted? cs).map fun (raw,rest) => ('\\' :: 'x' :: CString.hexByte b ++ raw,rest) := by
  have hb := b.toNat_lt
  simp only [CString.hexByte, List.cons_append, List.nil_append, quoted?]
  rw [quoted?_plain (hexDigit_isPlain (by omega)), quoted?_plain (hexDigit_isPlain (by omega))]
  simp [Option.map_map, Function.comp_def]

private theorem quoted?_hexBytes (bs : List UInt8) (cs : List Char) :
    quoted? (bs.flatMap (fun b => '\\' :: 'x' :: CString.hexByte b) ++ cs) =
      (quoted? cs).map fun (raw,rest) =>
        (bs.flatMap (fun b => '\\' :: 'x' :: CString.hexByte b) ++ raw,rest) := by
  induction bs with
  | nil => simp
  | cons b bs ih =>
    rw [List.flatMap_cons, List.append_assoc, quoted?_hexByte, ih]
    simp [Option.map_map, Function.comp_def]

/-- A literal does not end inside the escape of a character. -/
private theorem quoted?_escapeChar (c : Char) (cs : List Char) :
    quoted? (CString.escapeChar c ++ cs) =
      (quoted? cs).map fun (raw,rest) => (CString.escapeChar c ++ raw,rest) := by
  unfold CString.escapeChar
  split_ifs with hq hb hn hr ht hp
  · rfl
  · rfl
  · rfl
  · rfl
  · rfl
  · exact quoted?_plain ⟨hq,hb,hn⟩ cs
  · exact quoted?_hexBytes _ cs

theorem quoted?_escape (s : String) (rest : List Char) :
    quoted? ((CString.escape s).toList ++ '"' :: rest) = some ((CString.escape s).toList,rest) := by
  rw [CString.escape, String.toList_ofList]
  induction s.toList with
  | nil => rfl
  | cons c cs ih => rw [List.flatMap_cons, List.append_assoc, quoted?_escapeChar, ih]; rfl

theorem scan_str (s : String) (rest : List Char) :
    scan ((Lexeme.str s).text.toList ++ rest) = (scan rest).map ((Lexeme.str s).token :: ·) := by
  have htext : (Lexeme.str s).text.toList ++ rest
      = '"' :: ((CString.escape s).toList ++ '"' :: rest) := by
    simp [Lexeme.text]
  rw [htext]
  apply scan_cons (by decide)
  rw [next?, if_neg (by decide), if_pos rfl, quoted?_escape]
  simp [Lexeme.token]

/-- A sign is read where no longer sign starts. -/
theorem scan_sign {c : Char} {s rest : List Char} (hc : isWordChar c = false) (hb : c ≠ ' ')
    (hq : c ≠ '"') (h : sign? (c :: s ++ rest) = some (String.ofList (c :: s))) :
    scan (c :: s ++ rest) = (scan rest).map (.sign (String.ofList (c :: s)) :: ·) := by
  rw [List.cons_append] at h ⊢
  apply scan_cons hb
  rw [next?, if_neg (by simp [hc]), if_neg hq, h]
  simp

theorem scan_binary (op : BinOp) (rest : List Char) :
    scan ((Lexeme.binary op).text.toList ++ rest) =
      (scan rest).map ((Lexeme.binary op).token :: ·) := by
  have hsign : scan (op.token.toList ++ ' ' :: rest) = (scan rest).map (.sign op.token :: ·) := by
    rw [← scan_blank rest]
    cases op <;> exact scan_sign (by decide) (by decide) (by decide) rfl
  have htext : (Lexeme.binary op).text.toList ++ rest = ' ' :: (op.token.toList ++ ' ' :: rest) := by
    simp [Lexeme.text]
  rw [htext, scan_blank, hsign]
  rfl

end Token

namespace Lexeme

open Token

def isMark : Lexeme → Bool
  | .name _ | .number _ | .str _ | .unary _ => false
  | _ => true

theorem scan_mark {x : Lexeme} (hx : x.isMark = true) (rest : List Char) :
    scan (x.text.toList ++ rest) = (scan rest).map (x.token :: ·) := by
  cases x with
  | name | number | str | unary => cases hx
  | binary op => exact scan_binary op rest
  | openParen | closeParen | openBracket | closeBracket =>
    exact scan_sign (by decide) (by decide) (by decide) rfl
  | comma =>
    rw [← scan_blank rest]
    exact scan_sign (s := []) (by decide) (by decide) (by decide) rfl
  | question | colon =>
    rw [← scan_blank rest]
    refine (scan_blank _).trans ?_
    exact scan_sign (s := []) (by decide) (by decide) (by decide) rfl

theorem parted_mark {x : Lexeme} (hx : x.isMark = true) (rest : List Char) :
    Parted (x.text.toList ++ rest) := by
  cases x with
  | name | number | str | unary => cases hx
  | binary op => simp [Parted, text]; decide
  | _ => simp [Parted, text]; decide

/-- Words that are read back one by one before any text that parts them from what follows. -/
def Scanned (xs : List Lexeme) : Prop :=
  ∀ rest, Parted rest → scan (chars xs ++ rest) = (scan rest).map (xs.map token ++ ·)

theorem Scanned.nil : Scanned [] := by
  intro rest _
  simp [chars]

theorem Scanned.append_mark {xs zs : List Lexeme} {y : Lexeme} (hxs : Scanned xs)
    (hy : y.isMark = true) (hzs : Scanned zs) : Scanned (xs ++ y :: zs) := by
  intro rest hr
  have hchars : chars (xs ++ y :: zs) ++ rest = chars xs ++ (y.text.toList ++ (chars zs ++ rest)) := by
    simp [chars]
  rw [hchars, hxs _ (parted_mark hy _), scan_mark hy, hzs rest hr]
  simp [Option.map_map, Function.comp_def]

theorem Scanned.mark_cons {zs : List Lexeme} {y : Lexeme} (hy : y.isMark = true)
    (hzs : Scanned zs) : Scanned (y :: zs) := Scanned.nil.append_mark hy hzs

theorem Scanned.enclose {xs : List Lexeme} (h : Scanned xs) : Scanned (Expr.enclose xs) :=
  (h.mark_cons rfl).append_mark rfl .nil

theorem Scanned.name {s : String} (hs : isIdentifier s = true) : Scanned [.name s] := by
  intro rest hr
  simpa [chars, text, token] using scan_name hs hr

theorem Scanned.number (n : Nat) : Scanned [.number n] := by
  intro rest hr
  simpa [chars, text, token] using scan_number n hr

theorem Scanned.str (s : String) : Scanned [.str s] := by
  intro rest _
  simpa [chars] using scan_str s rest

/-- A character with which no unary sign grows into a longer one, two minus signs apart. -/
def Continues (op : UnOp) (c : Char) : Prop := c ≠ '=' ∧ c ≠ '>' ∧ (op = .neg → c ≠ '-')

theorem continues_wordChar (op : UnOp) {c : Char} (hc : isWordChar c = true) : Continues op c :=
  ⟨isWordChar_ne hc (by decide),isWordChar_ne hc (by decide),fun _ => isWordChar_ne hc (by decide)⟩

theorem Scanned.unary {op : UnOp} {xs : List Lexeme} (hxs : Scanned xs) {c : Char} {cs : List Char}
    (he : chars xs = c :: cs) (hc : Continues op c) : Scanned (.unary op :: xs) := by
  intro rest hr
  obtain ⟨heq,hgt,hneg⟩ := hc
  have hsign : scan (op.token.toList ++ (chars xs ++ rest)) =
      (scan (chars xs ++ rest)).map (.sign op.token :: ·) := by
    rw [he]
    cases op with
    | neg =>
      refine scan_sign (c := '-') (s := []) (by decide) (by decide) (by decide) ?_
      simp [sign?, signs, List.isPrefixOf, heq.symm, hgt.symm, (hneg rfl).symm]
    | not =>
      refine scan_sign (c := '!') (s := []) (by decide) (by decide) (by decide) ?_
      simp [sign?, signs, List.isPrefixOf, heq.symm]
    | bitNot => exact scan_sign (s := []) (by decide) (by decide) (by decide) rfl
  have hchars : chars (.unary op :: xs) ++ rest = op.token.toList ++ (chars xs ++ rest) := by
    simp [chars, text]
  rw [hchars, hsign, hxs rest hr]
  simp [Option.map_map, Function.comp_def, token]

end Lexeme

namespace Expr

open Token Lexeme

/-- The name an expression starts with, if any, is a C identifier. -/
def IsNamed : Expr → Prop
  | .var s | .index s _ | .call s _ => isIdentifier s = true
  | _ => True

instance : DecidablePred IsNamed := fun e => by
  cases e <;> unfold IsNamed <;> infer_instance

private theorem chars_name {s : String} (hs : isIdentifier s = true) (xs : List Lexeme) (op : UnOp) :
    ∃ c cs, chars (.name s :: xs) = c :: cs ∧ Continues op c := by
  unfold isIdentifier at hs
  split at hs
  · cases hs
  next c cs he =>
    simp only [Bool.and_eq_true] at hs
    exact ⟨c,cs ++ chars xs,by simp [chars, Lexeme.text, he],continues_wordChar op hs.1.1⟩

private theorem chars_number (n : Nat) (op : UnOp) :
    ∃ c cs, chars [.number n] = c :: cs ∧ Continues op c := by
  cases hd : Nat.toDigits 10 n with
  | nil => exact absurd hd Nat.toDigits_ne_nil
  | cons c cs =>
    have hdigit : c.isDigit = true := isDigit_of_mem_toDigits (n := n) (by simp [hd])
    refine ⟨c,cs,by simp [chars, Lexeme.text, hd],continues_wordChar op ?_⟩
    simp [isWordChar, Char.isAlphanum, hdigit]

/-- An operand without parentheses does not lengthen the sign before it. -/
private theorem chars_operand {op : UnOp} {e : Expr} (h : e.IsNamed)
    (he : e.enclosedUnder op = false) :
    ∃ c cs, chars (e.lexemes false) = c :: cs ∧ Continues op c := by
  cases e with
  | int v =>
    by_cases hv : v < 0
    · have hop : op ≠ .neg := by simpa [enclosedUnder, hv] using he
      rw [lexemes, if_pos hv]
      exact ⟨'-',_,rfl,by decide,by decide,fun h => absurd h hop⟩
    · rw [lexemes, if_neg hv]
      exact chars_number _ op
  | str s =>
    refine ⟨'"',(CString.escape s).toList ++ ['"'],?_,by decide,by decide,fun _ => by decide⟩
    simp [lexemes, chars, Lexeme.text]
  | var s => exact chars_name h [] op
  | unary inner e =>
    rw [lexemes]
    cases inner with
    | neg =>
      have hop : op ≠ .neg := by simpa [enclosedUnder] using he
      exact ⟨'-',_,rfl,by decide,by decide,fun h => absurd h hop⟩
    | not => exact ⟨'!',_,rfl,by decide,by decide,fun _ => by decide⟩
    | bitNot => exact ⟨'~',_,rfl,by decide,by decide,fun _ => by decide⟩
  | index array e =>
    rw [lexemes]
    exact chars_name h _ op
  | call name args =>
    cases args with
    | nil =>
      rw [lexemes]
      exact chars_name h _ op
    | cons arg args =>
      rw [lexemes]
      exact chars_name h _ op
  | binary => cases he
  | ternary => cases he

private theorem scanned_moreArgs {args : List Expr} (h : ∀ a ∈ args, Scanned (a.lexemes true))
    {xs : List Lexeme} (hxs : Scanned xs) : Scanned (xs ++ moreArgs args) := by
  induction args generalizing xs with
  | nil => simpa [moreArgs] using hxs
  | cons a args ih =>
    have ha := hxs.append_mark (y := .comma) rfl (h a (by simp))
    simpa [moreArgs] using ih (fun b hb => h b (by simp [hb])) ha

/-- The words of an expression are read back, whatever stands around them. -/
theorem scanned_lexemes {e : Expr} (h : e.Every IsNamed) (outermost : Bool) :
    Scanned (e.lexemes outermost) := by
  induction e generalizing outermost with
  | int v =>
    rw [lexemes]
    split_ifs
    · obtain ⟨c,cs,he,hc⟩ := chars_number v.toInt.natAbs .neg
      exact (Scanned.number _).unary he hc
    · exact .number _
  | str s => exact .str s
  | var name => exact .name h
  | binary op l r ihl ihr =>
    obtain ⟨-,hl,hr⟩ := h
    rw [lexemes]
    refine Scanned.append_mark ?_ rfl ?_
    · split_ifs
      · exact (ihl hl true).enclose
      · exact ihl hl false
    · split_ifs
      · exact (ihr hr true).enclose
      · exact ihr hr false
  | unary op e ih =>
    obtain ⟨-,he⟩ := h
    rw [lexemes]
    split_ifs with hp
    · exact (ih he true).enclose.unary rfl ⟨by decide,by decide,fun _ => by decide⟩
    · obtain ⟨c,cs,hcs,hc⟩ := chars_operand he.root (by simpa using hp)
      exact (ih he false).unary hcs hc
  | index array e ih =>
    obtain ⟨hn,he⟩ := h
    rw [lexemes]
    exact ((Scanned.name hn).append_mark rfl (ih he true)).append_mark rfl .nil
  | call name args ih =>
    obtain ⟨hn,hargs⟩ := h
    rw [everyOf_iff] at hargs
    cases args with
    | nil =>
      rw [lexemes]
      exact (Scanned.name hn).append_mark (y := .openParen) rfl (Scanned.nil.append_mark rfl .nil)
    | cons arg args =>
      have hall : ∀ a ∈ arg :: args, Scanned (a.lexemes true) := fun a ha => ih a ha (hargs a ha) true
      have harg := (Scanned.name hn).append_mark (y := .openParen) rfl (hall arg (by simp))
      have hmore := scanned_moreArgs (fun a ha => hall a (List.mem_cons_of_mem arg ha)) harg
      rw [lexemes]
      simpa using hmore.append_mark (y := .closeParen) rfl .nil
  | ternary c y n ihc ihy ihn =>
    obtain ⟨-,hc,hy,hn⟩ := h
    have hwords := ((ihc hc false).append_mark (y := .question) rfl (ihy hy false)).append_mark
      (y := .colon) rfl (ihn hn false)
    rw [lexemes]
    split_ifs
    · exact hwords
    · exact hwords.enclose

/-- The text of an expression is scanned into the tokens of its words. -/
theorem scan_text {e : Expr} (h : e.Every IsNamed) :
    scan e.text.toList = some ((e.lexemes true).map Lexeme.token) := by
  have hscan := scanned_lexemes h true [] (by simp [Parted])
  rw [toList_text]
  simpa [scan] using hscan

end Expr

end Cartridge
