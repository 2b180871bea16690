import Cartridge.Json.Printer
import Cartridge.Location

/-! Which line of the generated text came from which place of the author's. -/
namespace Cartridge

namespace SourceMap

structure Entry where
  /-- The generated line, counted from one. -/
  line : UInt32
  file : String
  originLine : UInt32
  originColumn : Option UInt32
  /-- The generated function around the line. -/
  symbol : Option String
  snippet : Option String
  deriving DecidableEq, Repr

namespace Entry

def toJson (e : Entry) : Json :=
  .ofMembers
    ([("emitted_line", .ofNat e.line.toNat), ("origin_file", .ofString e.file),
        ("origin_line", .ofNat e.originLine.toNat)]
      ++ Json.member? "origin_column" (e.originColumn.map (.ofNat ·.toNat))
      ++ Json.member? "symbol" (e.symbol.map .ofString)
      ++ Json.member? "snippet" (e.snippet.map .ofString))

def ofJson? (depth : Nat) (j : Json) : Option Entry :=
  Json.within depth fun _ => do
    let f ← j.fields? ["emitted_line", "origin_file", "origin_line", "origin_column", "symbol",
      "snippet"]
    return ⟨← f.need "emitted_line" Json.u32?, ← f.need "origin_file" Json.text?,
      ← f.need "origin_line" Json.u32?, ← f.get? "origin_column" Json.u32?,
      ← f.get? "symbol" Json.text?, ← f.get? "snippet" Json.text?⟩

end Entry

end SourceMap

structure SourceMap where
  entries : List SourceMap.Entry
  deriving DecidableEq, Repr

namespace SourceMap

def empty : SourceMap := ⟨[]⟩

def push (m : SourceMap) (line : UInt32) (origin : Location) (symbol : Option String) : SourceMap :=
  ⟨m.entries ++ [⟨line, origin.file, origin.line, origin.column, symbol, origin.snippet⟩]⟩

def findLine? (m : SourceMap) (line : UInt32) : Option Entry :=
  m.entries.find? fun e => e.line = line

/-- The later of two entries, unless the first has the greater line. -/
def later (best : Option Entry) (e : Entry) : Option Entry :=
  match best with
  | some b => if e.line < b.line then some b else some e
  | none => some e

/-- The last entry with the greatest line not after this one. -/
def nearest? (m : SourceMap) (line : UInt32) : Option Entry :=
  (m.entries.filter fun e => e.line ≤ line).foldl later none

def findOrigin (m : SourceMap) (file : String) (line : UInt32) : List Entry :=
  m.entries.filter fun e => e.file = file ∧ e.originLine = line

def toJson (m : SourceMap) : Json :=
  .ofMembers [("entries", .arr (m.entries.map Entry.toJson))]

def ofJson? (depth : Nat) (j : Json) : Option SourceMap :=
  Json.within depth fun depth => do
    let f ← j.fields? ["entries"]
    return ⟨← f.need "entries" (Json.list? depth Entry.ofJson?)⟩

def print (m : SourceMap) : String := m.toJson.compact

def parse? (text : String) : Option SourceMap :=
  (Json.parse? text).bind (ofJson? Json.depthLimit)

end SourceMap

end Cartridge
