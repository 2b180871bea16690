/-! C names made from the names of a game. -/
namespace Cartridge.Code.Name

def isAlphanumeric (c : Char) : Bool :=
  c.isDigit || ('a' ≤ c && c ≤ 'z') || ('A' ≤ c && c ≤ 'Z')

def safe (c : Char) : Char := if isAlphanumeric c || c = '_' then c else '_'

def ident (name : String) : String :=
  match name.toList.map safe with
  | [] => "_"
  | c :: cs => String.ofList (if c.isDigit then '_' :: c :: cs else c :: cs)

def upperChar (c : Char) : Char :=
  if 'a' ≤ c ∧ c ≤ 'z' then Char.ofNat (c.toNat - 32) else c

def upper (name : String) : String := String.ofList ((ident name).toList.map upperChar)

def scene (name : String) : String := "SCENE_" ++ upper name

def tag (name : String) : String := "TAG_" ++ upper name

def length (array : String) : String := upper array ++ "_LEN"

def state (machine state : String) : String := upper machine ++ "_STATE_" ++ upper state

def cutsceneStep (cutscene : String) : String := "cutscene_" ++ ident cutscene ++ "_step"

end Cartridge.Code.Name
