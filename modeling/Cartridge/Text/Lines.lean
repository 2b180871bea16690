/-! Texts as lines, and texts inside comments. -/
namespace Cartridge.Text

/-- The pieces of a text between newlines; there is one more than there are newlines. -/
def pieces : List Char → List (List Char)
  | [] => [[]]
  | c :: cs =>
    match pieces cs with
    | [] => []
    | piece :: rest => if c = '\n' then [] :: piece :: rest else (c :: piece) :: rest

def stripReturn (line : List Char) : List Char :=
  if line.getLast? = some '\r' then line.dropLast else line

/-- The lines of a text. A newline ends a line, with or without a carriage return before it; the
last line need not be ended. -/
def lines (text : String) : List String :=
  let all := pieces text.toList
  let ended := all.dropLast.map stripReturn
  let unended := all.getLast?.getD []
  (if unended.isEmpty then ended else ended ++ [unended]).map String.ofList

def sanitizeChars : List Char → List Char
  | '*' :: '/' :: rest => '*' :: ' ' :: '/' :: sanitizeChars rest
  | c :: rest => c :: sanitizeChars rest
  | [] => []

def sanitize (text : String) : String := String.ofList (sanitizeChars text.toList)

def commas (texts : List String) : String := String.intercalate ", " texts

def upperHexDigits : List Char :=
  ['0', '1', '2', '3', '4', '5', '6', '7', '8', '9', 'A', 'B', 'C', 'D', 'E', 'F']

def hexByte (b : UInt8) : String :=
  String.ofList ['0', 'x', upperHexDigits.getD (b.toNat / 16) '0',
    upperHexDigits.getD (b.toNat % 16) '0']

end Cartridge.Text
