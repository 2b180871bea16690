import Cartridge.Json.Basic
import Cartridge.Number.Shortest

/-!
JSON values: what a document means once the spelling of its numbers and the order of its keys are
forgotten. An integer within 64 bits is kept exactly, any other number as a double.
-/
namespace Cartridge.Json

/-- A double with its sign; zero has two. -/
structure Real where
  negative : Bool
  magnitude : Binary
  deriving DecidableEq, Repr

/-- The members of an object stand in the order of their keys, each key once. -/
inductive Value where
  | null
  | bool (b : Bool)
  | int (i : Int)
  | real (x : Real)
  | str (s : String)
  | arr (items : List Value)
  | obj (members : List (String × Value))

namespace Number

def largestWord : Nat := 18446744073709551615

/-- Significant digits read so far, and the power of ten they are to be multiplied by. -/
structure Significand where
  value : Nat
  power : Int

/-- Reads the whole part. The digits from the first that does not fit 64 bits on only count. -/
def Significand.ofWhole (digits : List Char) : Significand × Bool :=
  digits.foldl
    (fun (s, full) c =>
      let next := 10 * s.value + (c.toNat - '0'.toNat)
      if full ∨ largestWord < next then (⟨s.value, s.power + 1⟩, true)
      else (⟨next, s.power⟩, false))
    (⟨0, 0⟩, false)

def Significand.addFraction (s : Significand) : List Char → Significand
  | [] => s
  | c :: digits =>
    let next := 10 * s.value + (c.toNat - '0'.toNat)
    if largestWord < next then s else Significand.addFraction ⟨next, s.power - 1⟩ digits

def roundProduct? (x y : Binary) : Option Binary :=
  let (a, b) := x.toRatio
  let (c, d) := y.toRatio
  Binary.double.round? (a * c) (b * d)

/-- The quotient as a double; a quotient of doubles read here never passes the largest one. -/
def roundQuotient (x y : Binary) : Binary :=
  let (a, b) := x.toRatio
  let (c, d) := y.toRatio
  (Binary.double.round? (a * d) (b * c)).getD .zero

def powerOfTen (k : Nat) : Binary := (Binary.double.round? (Nat.pow 10 k) 1).getD .zero

def greatestPower : Nat := 308

def divideByPower (x : Binary) (k : Nat) : Binary :=
  if k ≤ greatestPower then roundQuotient x (powerOfTen k)
  else if x.mantissa = 0 then x
  else divideByPower (roundQuotient x (powerOfTen greatestPower)) (k - greatestPower)
termination_by k
decreasing_by simp only [greatestPower] at *; omega

/-- A significand scaled by its power of ten: it is rounded to a double first and the product or
quotient then rounded once more. There is none when the result is too large. -/
def scale? (s : Significand) : Option Binary := do
  let x ← Binary.double.round? s.value 1
  if 0 ≤ s.power then
    if s.power.toNat ≤ greatestPower then roundProduct? x (powerOfTen s.power.toNat)
    else if x.mantissa = 0 then some x else none
  else some (divideByPower x (-s.power).toNat)

def greatestExponent : Nat := 2147483647

def toReal? (n : Number) : Option Real := do
  let s := (Significand.ofWhole (Nat.toDigits 10 n.whole)).1.addFraction n.fraction
  let e := n.exponent.getD 0
  if greatestExponent < e.natAbs then
    if 0 ≤ e ∧ s.value ≠ 0 then none else some ⟨n.negative, .zero⟩
  else
    let x ← scale? ⟨s.value, s.power + e⟩
    return ⟨n.negative, x⟩

/-- The value of a number: an integer if it is written as one and fits 64 bits. -/
def toValue? (n : Number) : Option Value :=
  match n.toInt? with
  | some i =>
    if -9223372036854775808 ≤ i ∧ i ≤ largestWord then some (.int i) else n.toReal?.map .real
  | none => n.toReal?.map .real

/-- How a double is written: positional while the point stands within the first sixteen digits or
at most five zeros before them, and otherwise with an exponent. -/
def ofReal (x : Real) : Number :=
  if x.magnitude.mantissa = 0 then ⟨x.negative, 0, ['0'], none⟩ else
    let d := Binary.double.shortest .toEven x.magnitude
    let digits := Nat.toDigits 10 d.digits
    let point : Int := digits.length + d.exponent
    if 0 ≤ d.exponent ∧ point ≤ 16 then
      ⟨x.negative, d.digits * Nat.pow 10 d.exponent.toNat, ['0'], none⟩
    else if 0 < point ∧ point ≤ 16 then
      ⟨x.negative, d.digits / Nat.pow 10 (-d.exponent).toNat, digits.drop point.toNat, none⟩
    else if -5 < point ∧ point ≤ 0 then
      ⟨x.negative, 0, List.replicate (-point).toNat '0' ++ digits, none⟩
    else
      ⟨x.negative, d.digits / Nat.pow 10 (digits.length - 1), digits.drop 1, some (point - 1)⟩

end Number

namespace Value

def insert (key : String) (v : Value) : List (String × Value) → List (String × Value)
  | [] => [(key, v)]
  | (k, w) :: rest =>
    if key < k then (key, v) :: (k, w) :: rest
    else if key = k then (key, v) :: rest
    else (k, w) :: insert key v rest

/-- The value of a document with at most `depth` brackets inside one another. A later member
replaces an earlier one with the same key. -/
def ofJson? (depth : Nat) : Json → Option Value
  | .null => some .null
  | .bool b => some (.bool b)
  | .num n => n.toValue?
  | .str s => s.map .str
  | .arr items => match depth with
    | 0 => none
    | depth + 1 => (items.mapM (ofJson? depth)).map .arr
  | .obj members => match depth with
    | 0 => none
    | depth + 1 => do
      let read ← members.mapM fun (k, v) => return (← k, ← ofJson? depth v)
      return .obj (read.foldl (fun all (k, v) => insert k v all) [])

mutual

def toJson : Value → Json
  | .null => .null
  | .bool b => .bool b
  | .int i => .ofInt i
  | .real x => .num (.ofReal x)
  | .str s => .ofString s
  | .arr items => .arr (toJsonItems items)
  | .obj members => .obj (toJsonMembers members)

def toJsonItems : List Value → List Json
  | [] => []
  | item :: items => toJson item :: toJsonItems items

def toJsonMembers : List (String × Value) → List (Option String × Json)
  | [] => []
  | (k, v) :: members => (some k, toJson v) :: toJsonMembers members

end

mutual

def same : Value → Value → Bool
  | .null, .null => true
  | .bool a, .bool b => a = b
  | .int a, .int b => a = b
  | .real a, .real b => a = b
  | .str a, .str b => a = b
  | .arr a, .arr b => sameItems a b
  | .obj a, .obj b => sameMembers a b
  | _, _ => false

def sameItems : List Value → List Value → Bool
  | [], [] => true
  | a :: as, b :: bs => same a b && sameItems as bs
  | _, _ => false

def sameMembers : List (String × Value) → List (String × Value) → Bool
  | [], [] => true
  | (k, a) :: as, (l, b) :: bs => k = l && same a b && sameMembers as bs
  | _, _ => false

end

mutual

theorem same_iff : ∀ a b : Value, same a b = true ↔ a = b
  | .null, b => by cases b <;> simp [same]
  | .bool _, b => by cases b <;> simp [same]
  | .int _, b => by cases b <;> simp [same]
  | .real _, b => by cases b <;> simp [same]
  | .str _, b => by cases b <;> simp [same]
  | .arr as, b => by cases b <;> simp [same, sameItems_iff as]
  | .obj as, b => by cases b <;> simp [same, sameMembers_iff as]

theorem sameItems_iff : ∀ as bs : List Value, sameItems as bs = true ↔ as = bs
  | [], bs => by cases bs <;> simp [sameItems]
  | a :: as, bs => by cases bs <;> simp [sameItems, same_iff a, sameItems_iff as]

theorem sameMembers_iff : ∀ as bs : List (String × Value), sameMembers as bs = true ↔ as = bs
  | [], bs => by cases bs <;> simp [sameMembers]
  | (k, a) :: as, bs => by
    cases bs <;> simp [sameMembers, same_iff a, sameMembers_iff as, Prod.ext_iff, and_assoc]

end

instance : DecidableEq Value := fun a b => decidable_of_iff _ (same_iff a b)

end Value

end Cartridge.Json
