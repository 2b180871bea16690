/-!
JSON documents as they are written. Numbers keep their decimal form, and a text that spells half
of a surrogate pair is kept as no string at all, so that a reader that skips a member need not
understand it.
-/
namespace Cartridge

namespace Json

/-- A number as written: sign, whole part, digits after the point, power of ten. -/
structure Number where
  negative : Bool
  whole : Nat
  fraction : List Char
  exponent : Option Int
  deriving DecidableEq, Repr

namespace Number

def ofInt (i : Int) : Number := ⟨i < 0, i.natAbs, [], none⟩

/-- The integer a number is written as. A point, an exponent or a negative zero make it no
integer. -/
def toInt? (n : Number) : Option Int :=
  if n.fraction = [] ∧ n.exponent = none then
    if n.negative then if n.whole = 0 then none else some (-(n.whole : Int)) else some n.whole
  else none

end Number

end Json

/-- A JSON document. A string is `none` when its escapes spell a lone surrogate. -/
inductive Json where
  | null
  | bool (b : Bool)
  | num (n : Json.Number)
  | str (s : Option String)
  | arr (items : List Json)
  | obj (members : List (Option String × Json))

namespace Json

def ofInt (i : Int) : Json := .num (.ofInt i)

def ofNat (n : Nat) : Json := .ofInt n

def ofString (s : String) : Json := .str (some s)

def ofMembers (members : List (String × Json)) : Json :=
  .obj (members.map fun (k, v) => (some k, v))

def single (key : String) (value : Json) : Json := ofMembers [(key, value)]

def member? (key : String) : Option Json → List (String × Json)
  | some v => [(key, v)]
  | none => []

end Json

end Cartridge
