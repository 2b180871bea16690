import Cartridge.Json.Basic

/-!
Writing JSON texts: on one line, or with two blanks of indentation a level.
-/
namespace Cartridge.Json

def hexDigits : List Char :=
  ['0', '1', '2', '3', '4', '5', '6', '7', '8', '9', 'a', 'b', 'c', 'd', 'e', 'f']

def hexChar (n : Nat) : Char := hexDigits.getD n '0'

/-- A character inside quotes. Only the quote, the backslash and control characters are escaped. -/
def escapeChar (c : Char) : List Char :=
  if c = '"' then ['\\', '"']
  else if c = '\\' then ['\\', '\\']
  else if c = '\x08' then ['\\', 'b']
  else if c = '\x0c' then ['\\', 'f']
  else if c = '\n' then ['\\', 'n']
  else if c = '\r' then ['\\', 'r']
  else if c = '\t' then ['\\', 't']
  else if c.toNat < 0x20 then
    ['\\', 'u', '0', '0', hexChar (c.toNat / 16), hexChar (c.toNat % 16)]
  else [c]

def quote (s : String) : List Char := '"' :: s.toList.flatMap escapeChar ++ ['"']

/-- The text of a string. A string that is none is written empty. -/
def quote? (s : Option String) : List Char := quote (s.getD "")

namespace Number

def exponentText : Option Int → List Char
  | none => []
  | some e => 'e' :: (if e < 0 then '-' else '+') :: Nat.toDigits 10 e.natAbs

def text (n : Number) : List Char :=
  (if n.negative then ['-'] else []) ++ Nat.toDigits 10 n.whole
    ++ (if n.fraction.isEmpty then [] else '.' :: n.fraction) ++ exponentText n.exponent

end Number

/-- Where the parts of a bracket stand: what follows the opening bracket, a comma and the last
part at a given depth, and what follows a key. -/
structure Layout where
  lineBreak : Nat → List Char
  afterKey : List Char

def Layout.compact : Layout := ⟨fun _ => [], [':']⟩

/-- Each part on a line of its own, two blanks deeper than its bracket. -/
def Layout.indented : Layout :=
  ⟨fun depth => '\n' :: List.replicate (2 * depth) ' ', [':', ' ']⟩

mutual

def write (l : Layout) (depth : Nat) : Json → List Char
  | .null => ['n', 'u', 'l', 'l']
  | .bool true => ['t', 'r', 'u', 'e']
  | .bool false => ['f', 'a', 'l', 's', 'e']
  | .num n => n.text
  | .str s => quote? s
  | .arr [] => ['[', ']']
  | .arr (item :: items) =>
    '[' :: l.lineBreak (depth + 1) ++ write l (depth + 1) item ++ writeItems l (depth + 1) items
      ++ l.lineBreak depth ++ [']']
  | .obj [] => ['\x7b', '\x7d']
  | .obj ((k, v) :: members) =>
    '\x7b' :: l.lineBreak (depth + 1) ++ quote? k ++ l.afterKey ++ write l (depth + 1) v
      ++ writeMembers l (depth + 1) members ++ l.lineBreak depth ++ ['\x7d']

def writeItems (l : Layout) (depth : Nat) : List Json → List Char
  | [] => []
  | item :: items => ',' :: l.lineBreak depth ++ write l depth item ++ writeItems l depth items

def writeMembers (l : Layout) (depth : Nat) : List (Option String × Json) → List Char
  | [] => []
  | (k, v) :: members =>
    ',' :: l.lineBreak depth ++ quote? k ++ l.afterKey ++ write l depth v
      ++ writeMembers l depth members

end

def compact (j : Json) : String := String.ofList (write .compact 0 j)

def pretty (j : Json) : String := String.ofList (write .indented 0 j)

end Cartridge.Json
