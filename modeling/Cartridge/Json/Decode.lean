import Cartridge.Json.Reader
import Cartridge.Json.Value

/-!
Reading typed data out of JSON documents. Every reader gets the number of brackets that may still
be opened inside one another; members it does not know are skipped unread.
-/
namespace Cartridge.Json

/-- The greatest number of brackets inside one another that is read. -/
def depthLimit : Nat := 127

def within {α} (depth : Nat) (inner : Nat → Option α) : Option α :=
  match depth with
  | 0 => none
  | depth + 1 => inner depth

def text? : Json → Option String
  | .str s => s
  | _ => none

def bool? : Json → Option Bool
  | .bool b => some b
  | _ => none

def int? (low high : Int) : Json → Option Int
  | .num n => n.toInt?.filter fun i => low ≤ i ∧ i ≤ high
  | _ => none

def u8? (j : Json) : Option UInt8 := (int? 0 255 j).map (.ofNat ·.toNat)

def u16? (j : Json) : Option UInt16 := (int? 0 65535 j).map (.ofNat ·.toNat)

def u32? (j : Json) : Option UInt32 := (int? 0 4294967295 j).map (.ofNat ·.toNat)

def i16? (j : Json) : Option Int16 := (int? (-32768) 32767 j).map .ofInt

def i32? (j : Json) : Option Int32 := (int? (-2147483648) 2147483647 j).map .ofInt

def nat? (j : Json) : Option Nat := (int? 0 18446744073709551615 j).map Int.toNat

/-- The items of a list whose bracket has been counted. -/
def items? {α} (read : Json → Option α) : Json → Option (List α)
  | .arr items => items.mapM read
  | _ => none

def list? {α} (depth : Nat) (item : Nat → Json → Option α) : Json → Option (List α)
  | .arr items => within depth fun depth => items.mapM (item depth)
  | _ => none

def nullable? {α} (read : Json → Option α) : Json → Option (Option α)
  | .null => some none
  | j => (read j).map some

/-- One of finitely many names, alone or as the key of `null`. -/
def oneOf? {α} (all : List α) (name : α → String) (depth : Nat) : Json → Option α
  | .str (some s) => all.find? fun a => name a == s
  | .obj [(some s, .null)] => within depth fun _ => all.find? fun a => name a == s
  | _ => none

def variant? : Json → Option (String × Json)
  | .obj [(some name, body)] => some (name, body)
  | _ => none

/-- The known members of a record. -/
structure Fields where
  positional : Bool
  entries : List (String × Json)

/-- A record is an object, in which no known member occurs twice, or a list of its members in
order. -/
def fields? (names : List String) : Json → Option Fields
  | .obj members => do
    let keyed ← members.mapM fun (k, v) => k.map (·, v)
    let known := keyed.filter fun (k, _) => names.contains k
    if (known.map Prod.fst).Nodup then some ⟨false, known⟩ else none
  | .arr items => if items.length ≤ names.length then some ⟨true, names.zip items⟩ else none
  | _ => none

def members? : Json → Option Fields
  | .obj members => do
    let keyed ← members.mapM fun (k, v) => k.map (·, v)
    return ⟨false, keyed⟩
  | _ => none

namespace Fields

def need {α} (f : Fields) (key : String) (read : Json → Option α) : Option α :=
  (f.entries.lookup key).bind read

def getD {α} (f : Fields) (key : String) (absent : α) (read : Json → Option α) : Option α :=
  match f.entries.lookup key with
  | some j => read j
  | none => some absent

def get? {α} (f : Fields) (key : String) (read : Json → Option α) : Option (Option α) :=
  f.getD key none (nullable? read)

/-- A member that may be `null`, and left out where members are named. -/
def named? {α} (f : Fields) (key : String) (read : Json → Option α) : Option (Option α) :=
  if f.positional then f.need key (nullable? read) else f.get? key read

end Fields

end Cartridge.Json
