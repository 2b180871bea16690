import Cartridge.Json.Basic

/-! The words of a JSON text. -/
namespace Cartridge.Json

inductive Token where
  | openObj
  | closeObj
  | openArr
  | closeArr
  | comma
  | colon
  | null
  | bool (b : Bool)
  | num (n : Number)
  | str (s : Option String)

namespace Token

def hexDigit? (c : Char) : Option Nat :=
  if c.isDigit then some (c.toNat - '0'.toNat)
  else if 'a' ≤ c ∧ c ≤ 'f' then some (c.toNat - 'a'.toNat + 10)
  else if 'A' ≤ c ∧ c ≤ 'F' then some (c.toNat - 'A'.toNat + 10)
  else none

def hexUnit? (a b c d : Char) : Option Nat := do
  let a ← hexDigit? a
  let b ← hexDigit? b
  let c ← hexDigit? c
  let d ← hexDigit? d
  return ((a * 16 + b) * 16 + c) * 16 + d

def escaped? : Char → Option Char
  | '"' => some '"'
  | '\\' => some '\\'
  | '/' => some '/'
  | 'b' => some '\x08'
  | 'f' => some '\x0c'
  | 'n' => some '\n'
  | 'r' => some '\r'
  | 't' => some '\t'
  | _ => none

def quoted : List Char → Option (List Nat × List Char)
  | [] => none
  | '"' :: rest => some ([], rest)
  | '\\' :: 'u' :: a :: b :: c :: d :: rest => do
    let unit ← hexUnit? a b c d
    let (units, rest) ← quoted rest
    return (unit :: units, rest)
  | '\\' :: e :: rest => do
    let c ← escaped? e
    let (units, rest) ← quoted rest
    return (c.toNat :: units, rest)
  | c :: rest =>
    if c = '\\' ∨ c.toNat < 0x20 then none
    else do
      let (units, rest) ← quoted rest
      return (c.toNat :: units, rest)

def isHigh (u : Nat) : Bool := 0xD800 ≤ u ∧ u < 0xDC00

def isLow (u : Nat) : Bool := 0xDC00 ≤ u ∧ u < 0xE000

/-- Characters from code units, two surrogates making one character. A lone one makes none. -/
def characters? : List Nat → Option (List Char)
  | [] => some []
  | u :: rest =>
    if isLow u then none
    else if isHigh u then
      match rest with
      | v :: rest =>
        if isLow v then
          (characters? rest).map (Char.ofNat (0x10000 + (u - 0xD800) * 0x400 + (v - 0xDC00)) :: ·)
        else none
      | [] => none
    else (characters? rest).map (Char.ofNat u :: ·)

def natOf (digits : List Char) : Nat :=
  digits.foldl (fun n c => 10 * n + (c.toNat - '0'.toNat)) 0

def digits (cs : List Char) : List Char × List Char :=
  (cs.takeWhile Char.isDigit, cs.dropWhile Char.isDigit)

def fraction? : List Char → Option (List Char × List Char)
  | '.' :: rest => match digits rest with
    | ([], _) => none
    | found => some found
  | rest => some ([], rest)

def power? (negative : Bool) (cs : List Char) : Option (Option Int × List Char) :=
  match digits cs with
  | ([], _) => none
  | (ds, rest) => some (some (if negative then -(natOf ds : Int) else natOf ds), rest)

def exponent? : List Char → Option (Option Int × List Char)
  | c :: rest =>
    if c = 'e' ∨ c = 'E' then
      match rest with
      | '-' :: rest => power? true rest
      | '+' :: rest => power? false rest
      | rest => power? false rest
    else some (none, c :: rest)
  | [] => some (none, [])

/-- An unsigned number at the start of a text. Its whole part has no needless zero in front. -/
def number? (negative : Bool) (cs : List Char) : Option (Number × List Char) :=
  match digits cs with
  | ([], _) => none
  | ('0' :: _ :: _, _) => none
  | (ds, rest) => do
    let (fraction, rest) ← fraction? rest
    let (exponent, rest) ← exponent? rest
    return (⟨negative, natOf ds, fraction, exponent⟩, rest)

def next? : List Char → Option (Token × List Char)
  | '\x7b' :: rest => some (.openObj, rest)
  | '\x7d' :: rest => some (.closeObj, rest)
  | '[' :: rest => some (.openArr, rest)
  | ']' :: rest => some (.closeArr, rest)
  | ',' :: rest => some (.comma, rest)
  | ':' :: rest => some (.colon, rest)
  | 'n' :: 'u' :: 'l' :: 'l' :: rest => some (.null, rest)
  | 't' :: 'r' :: 'u' :: 'e' :: rest => some (.bool true, rest)
  | 'f' :: 'a' :: 'l' :: 's' :: 'e' :: rest => some (.bool false, rest)
  | '"' :: rest => (quoted rest).map fun (units, rest) =>
      (.str ((characters? units).map String.ofList), rest)
  | '-' :: rest => (number? true rest).map fun (n, rest) => (.num n, rest)
  | cs => (number? false cs).map fun (n, rest) => (.num n, rest)

def isBlank (c : Char) : Bool := c = ' ' ∨ c = '\n' ∨ c = '\t' ∨ c = '\r'

theorem quoted_length_lt {cs : List Char} {units rest} (h : quoted cs = some (units, rest)) :
    rest.length < cs.length := by
  fun_induction quoted cs generalizing units rest with
  | case1 => simp at h
  | case2 r => simp at h; simp [← h.2]
  | case3 a b c d r ih =>
    simp only [bind, Option.bind_eq_some_iff, pure, Option.some.injEq, Prod.mk.injEq] at h
    obtain ⟨u, -, p, hp, -, rfl⟩ := h
    have := ih hp
    simp only [List.length_cons]
    omega
  | case4 e r _ ih =>
    simp only [bind, Option.bind_eq_some_iff, pure, Option.some.injEq, Prod.mk.injEq] at h
    obtain ⟨u, -, p, hp, -, rfl⟩ := h
    have := ih hp
    simp only [List.length_cons]
    omega
  | case5 => simp at h
  | case6 c r _ _ _ _ ih =>
    simp only [bind, Option.bind_eq_some_iff, pure, Option.some.injEq, Prod.mk.injEq] at h
    obtain ⟨p, hp, -, rfl⟩ := h
    have := ih hp
    simp only [List.length_cons]
    omega

theorem digits_length_le (cs : List Char) : (digits cs).2.length ≤ cs.length :=
  (List.dropWhile_sublist _).length_le

theorem digits_length_lt {cs ds rest : List Char} (h : digits cs = (ds, rest)) (hd : ds ≠ []) :
    rest.length < cs.length := by
  simp only [digits, Prod.mk.injEq] at h
  obtain ⟨rfl, rfl⟩ := h
  have := congrArg List.length (List.takeWhile_append_dropWhile (p := Char.isDigit) (l := cs))
  have := List.length_pos_iff.2 hd
  rw [List.length_append] at *
  omega

theorem fraction?_length_le {cs ds rest : List Char} (h : fraction? cs = some (ds, rest)) :
    rest.length ≤ cs.length := by
  unfold fraction? at h
  split at h
  · rename_i r
    split at h
    · simp at h
    · have := digits_length_le r
      simp only [Option.some.injEq] at h
      simp only [h, List.length_cons] at *
      omega
  · simp only [Option.some.injEq, Prod.mk.injEq] at h
    exact Nat.le_of_eq (by rw [h.2])

theorem power?_length_le {b : Bool} {cs rest : List Char} {e}
    (h : power? b cs = some (e, rest)) : rest.length ≤ cs.length := by
  unfold power? at h
  split at h
  · simp at h
  · rename_i hd
    have := digits_length_le cs
    rw [hd] at this
    simp only [Option.some.injEq, Prod.mk.injEq] at h
    rw [← h.2]
    exact this

theorem exponent?_length_le {cs rest : List Char} {e} (h : exponent? cs = some (e, rest)) :
    rest.length ≤ cs.length := by
  unfold exponent? at h
  split at h
  · split at h
    · split at h <;>
        · have := power?_length_le h
          simp only [List.length_cons] at *
          omega
    · simp only [Option.some.injEq, Prod.mk.injEq] at h
      simp [← h.2]
  · simp only [Option.some.injEq, Prod.mk.injEq] at h
    simp [← h.2]

theorem number?_length_lt {b : Bool} {cs rest : List Char} {n}
    (h : number? b cs = some (n, rest)) : rest.length < cs.length := by
  unfold number? at h
  split at h
  · simp at h
  · simp at h
  · rename_i ds r hne _ hd
    simp only [bind, Option.bind_eq_some_iff, pure, Option.some.injEq, Prod.mk.injEq] at h
    obtain ⟨f, hf, e, he, -, rfl⟩ := h
    have h1 := digits_length_lt hd hne
    have h2 := fraction?_length_le hf
    have h3 := exponent?_length_le he
    omega

theorem next?_length_lt {cs rest : List Char} {t} (h : next? cs = some (t, rest)) :
    rest.length < cs.length := by
  unfold next? at h
  split at h
  case h_10 =>
    simp only [Option.map_eq_some_iff, Prod.mk.injEq] at h
    obtain ⟨p, hp, -, rfl⟩ := h
    have := quoted_length_lt hp
    simp only [List.length_cons]
    omega
  case h_11 =>
    simp only [Option.map_eq_some_iff, Prod.mk.injEq] at h
    obtain ⟨p, hp, -, rfl⟩ := h
    have := number?_length_lt hp
    simp only [List.length_cons]
    omega
  case h_12 =>
    simp only [Option.map_eq_some_iff, Prod.mk.injEq] at h
    obtain ⟨p, hp, -, rfl⟩ := h
    exact number?_length_lt hp
  all_goals
    simp only [Option.some.injEq, Prod.mk.injEq] at h
    simp only [← h.2, List.length_cons]
    omega

end Token

def words? (cs : List Char) : Option (List Token) :=
  match cs with
  | [] => some []
  | c :: rest =>
    if Token.isBlank c then words? rest
    else match _h : Token.next? (c :: rest) with
      | none => none
      | some (t, rest) => (words? rest).map (t :: ·)
termination_by cs.length
decreasing_by
  · simp
  · exact Token.next?_length_lt (by assumption)

end Cartridge.Json
