import Cartridge.Json.Decode

/-! Places in the text an author wrote. -/
namespace Cartridge

structure Location where
  file : String
  line : UInt32
  column : Option UInt32 := none
  snippet : Option String := none
  deriving DecidableEq, Repr

namespace Location

def text (l : Location) : String :=
  l.file ++ ":" ++ toString l.line.toNat ++
    match l.column with
    | some c => ":" ++ toString c.toNat
    | none => ""

def toJson (l : Location) : Json :=
  .ofMembers
    ([("file", .ofString l.file), ("line", .ofNat l.line.toNat)]
      ++ Json.member? "column" (l.column.map (.ofNat ·.toNat))
      ++ Json.member? "snippet" (l.snippet.map .ofString))

def ofJson? (depth : Nat) (j : Json) : Option Location :=
  Json.within depth fun _ => do
    let f ← j.fields? ["file", "line", "column", "snippet"]
    return ⟨← f.need "file" Json.text?, ← f.need "line" Json.u32?,
      ← f.get? "column" Json.u32?, ← f.get? "snippet" Json.text?⟩

end Location

end Cartridge
