/-! The inside of C string literals. -/
namespace Cartridge.CString

def hexDigits : List Char :=
  ['0', '1', '2', '3', '4', '5', '6', '7', '8', '9', 'a', 'b', 'c', 'd', 'e', 'f']

def hexByte (b : UInt8) : List Char :=
  [hexDigits.getD (b.toNat / 16) '0', hexDigits.getD (b.toNat % 16) '0']

/-- A character in a literal. Outside printable ASCII its UTF-8 bytes are written in hexadecimal. -/
def escapeChar (c : Char) : List Char :=
  if c = '"' then ['\\', '"']
  else if c = '\\' then ['\\', '\\']
  else if c = '\n' then ['\\', 'n']
  else if c = '\r' then ['\\', 'r']
  else if c = '\t' then ['\\', 't']
  else if 0x20 ≤ c.toNat ∧ c.toNat ≤ 0x7e then [c]
  else (String.utf8EncodeChar c).flatMap fun b => '\\' :: 'x' :: hexByte b

def escape (s : String) : String := String.ofList (s.toList.flatMap escapeChar)

end Cartridge.CString
