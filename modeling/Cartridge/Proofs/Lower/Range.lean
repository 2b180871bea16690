import Mathlib.Data.Int.Range
import Cartridge.Lower.Stmt
import Cartridge.Proofs.Number.Wrap

/-!
Counting loops in the type of their counter. The counter begins at the first number as the type holds it,
is compared as an integer, and is counted up within the type. The type has room for the last number but not
for every first one: a number too large for it begins anew from zero.
-/
namespace Cartridge.Lower

open Code Code.Emission

/-- The C types of counters. -/
inductive CounterType where
  | narrow (d : Domain)
  /-- 32 bits with a sign. -/
  | wide
  deriving DecidableEq, Repr

namespace CounterType

def name : CounterType → String
  | .narrow d => d.cType
  | .wide => "int32_t"

def wrap : CounterType → Int → Int
  | .narrow d, x => d.wrap x
  | .wide, x => x.bmod Int32.size

def Fits : CounterType → Int → Prop
  | .narrow d, x => d.Fits x
  | .wide, x => Int32.minValue.toInt ≤ x ∧ x ≤ Int32.maxValue.toInt

theorem wrap_of_fits {t : CounterType} {x : Int} (h : t.Fits x) : t.wrap x = x := by
  cases t with
  | narrow d => exact Domain.wrap_of_fits h
  | wide =>
    obtain ⟨hlow,hhigh⟩ := h
    simp only [Int32.toInt_minValue, Int32.toInt_maxValue] at hlow hhigh
    exact Int.bmod_eq_of_le_mul_two (by simp only [Int32.size]; omega) (by simp only [Int32.size]; omega)

theorem fits_wrap (t : CounterType) (x : Int) : t.Fits (t.wrap x) := by
  cases t with
  | narrow d => exact d.fits_wrap x
  | wide =>
    rw [wrap, ← Int32.toInt_ofInt]
    exact ⟨Int32.minValue_le_toInt _,Int32.toInt_le _⟩

end CounterType

/-- A loop that counts from one number up to another, and ends before that. -/
structure CountingLoop where
  type : CounterType
  counter : String
  first : Int
  last : Int

namespace CountingLoop

def header (l : CountingLoop) : String :=
  s!"for ({l.type.name} {l.counter} = {l.first}; " ++ s!"{l.counter} < {l.last}; {l.counter}++)"

/-- The values of the counter for which the body is run, from one value on. -/
inductive VisitsFrom (l : CountingLoop) : Int → List Int → Prop
  | done {x : Int} (h : l.last ≤ x) : VisitsFrom l x []
  | next {x : Int} {rest : List Int} (h : x < l.last)
      (hrest : VisitsFrom l (l.type.wrap (x + 1)) rest) : VisitsFrom l x (x :: rest)

/-- The loop ends after its body was run for these values of the counter, in this order. -/
def Visits (l : CountingLoop) (visited : List Int) : Prop := l.VisitsFrom (l.type.wrap l.first) visited

variable {l : CountingLoop}

theorem VisitsFrom.unique {x : Int} {xs ys : List Int} (hx : l.VisitsFrom x xs) (hy : l.VisitsFrom x ys) :
    xs = ys := by
  induction hx generalizing ys with
  | done h =>
    cases hy with
    | done => rfl
    | next h' => exact absurd h' h.not_gt
  | next h _ ih =>
    cases hy with
    | done h' => exact absurd h h'.not_gt
    | next _ hrest => rw [ih hrest]

end CountingLoop

theorem range_eq_nil_iff {a b : Int} : Int.range a b = [] ↔ b ≤ a := by
  simp [Int.range]

theorem range_of_lt {a b : Int} (h : a < b) : Int.range a b = a :: Int.range (a + 1) b := by
  have hlength : (b - a).toNat = (b - (a + 1)).toNat + 1 := by omega
  rw [Int.range, Int.range, hlength, List.range_succ_eq_map]
  simp [Function.comp_def, Int.add_assoc, Int.add_comm 1]

/-- If the type holds all numbers up to the last one, no value of the counter is left out. -/
theorem CountingLoop.visitsFrom_range {l : CountingLoop} {x : Int}
    (hroom : ∀ y, x ≤ y → y ≤ l.last → l.type.Fits y) : l.VisitsFrom x (Int.range x l.last) := by
  obtain ⟨n,hn⟩ : ∃ n, (l.last - x).toNat = n := ⟨_,rfl⟩
  induction n generalizing x with
  | zero =>
    have hle : l.last ≤ x := by omega
    rw [range_eq_nil_iff.mpr hle]
    exact .done hle
  | succ n ih =>
    have hlt : x < l.last := by omega
    have hrest := ih (x := x + 1) (fun y hxy => hroom y (by omega)) (by omega)
    rw [range_of_lt hlt]
    refine .next hlt ?_
    rwa [CounterType.wrap_of_fits (hroom (x + 1) (by omega) (by omega))]

def counterOf (first last : Int32) : CounterType :=
  if 0 ≤ first ∧ last ≤ 0xFF then .narrow .u8
  else if 0 ≤ first ∧ last ≤ 0xFFFF then .narrow .u16
  else if -128 ≤ first ∧ last ≤ 127 then .narrow .i8
  else if -32768 ≤ first ∧ last ≤ 32767 then .narrow .i16
  else .wide

def rangeLoop (counter : String) (first last : Int32) : CountingLoop :=
  ⟨counterOf first last,counter,first.toInt,last.toInt⟩

variable {first last : Int32}

theorem name_counterOf : (counterOf first last).name = counterType first last := by
  unfold counterOf counterType
  split_ifs <;> rfl

theorem header_rangeLoop (counter : String) :
    (rangeLoop counter first last).header = rangeHeader counter first last := by
  rw [rangeHeader, ← name_counterOf]
  rfl

/-- Types without a sign are for counters that begin at no negative number, and of the others only the
widest is for counters that do not begin at a negative one. -/
theorem counterOf_cases (first last : Int32) :
    (counterOf first last = .narrow .u8 ∧ 0 ≤ first.toInt ∧ last.toInt ≤ 255) ∨
    (counterOf first last = .narrow .u16 ∧ 0 ≤ first.toInt ∧ 255 < last.toInt ∧ last.toInt ≤ 65535) ∨
    (counterOf first last = .narrow .i8 ∧ -128 ≤ first.toInt ∧ first.toInt < 0 ∧ last.toInt ≤ 127) ∨
    (counterOf first last = .narrow .i16 ∧ -32768 ≤ first.toInt ∧ first.toInt < 0 ∧ last.toInt ≤ 32767) ∨
    (counterOf first last = .wide ∧ (0 ≤ first.toInt → 65535 < last.toInt)) := by
  have hbyte : (0xFF : Int32).toInt = 255 := rfl
  have hword : (0xFFFF : Int32).toInt = 65535 := rfl
  unfold counterOf
  simp only [Int32.le_iff_toInt_le, hbyte, hword]
  split_ifs <;> simp_all <;> omega

/-- The type has no room for the first number, and the number it begins at instead is before the last. -/
def BeginsAnew (first last : Int) : Prop :=
  255 < first ∧ last ≤ 255 ∧ first % 256 < last ∨
    65535 < first ∧ 255 < last ∧ last ≤ 65535 ∧ first % 65536 < last

/-- Numbers between where the counter begins and the last one are values of its type. -/
theorem fits_of_between {y : Int} (hfrom : (counterOf first last).wrap first.toInt ≤ y)
    (hto : y ≤ last.toInt) : (counterOf first last).Fits y := by
  have hbegin := (counterOf first last).fits_wrap first.toInt
  obtain ⟨htype,_,hlast⟩ | ⟨htype,_,_,hlast⟩ | ⟨htype,_,_,hlast⟩ | ⟨htype,_,_,hlast⟩ | ⟨htype,_⟩ :=
    counterOf_cases first last
  all_goals rw [htype] at hfrom hbegin ⊢
  case inr.inr.inr.inr => exact ⟨hbegin.1.trans hfrom,hto.trans last.toInt_le⟩
  all_goals exact ⟨hbegin.1.trans hfrom,hto.trans hlast⟩

theorem visits_wrapped (counter : String) (first last : Int32) :
    (rangeLoop counter first last).Visits
      (Int.range ((counterOf first last).wrap first.toInt) last.toInt) :=
  CountingLoop.visitsFrom_range (l := rangeLoop counter first last) fun _ => fits_of_between

/-- A first number that its type does not hold is not before the last one. -/
theorem wrap_first_of_lt (h : first.toInt < last.toInt) :
    (counterOf first last).wrap first.toInt = first.toInt := by
  apply CounterType.wrap_of_fits
  obtain ⟨htype,hfirst,hlast⟩ | ⟨htype,hfirst,_,hlast⟩ | ⟨htype,hfirst,_,hlast⟩ |
      ⟨htype,hfirst,_,hlast⟩ | ⟨htype,_⟩ := counterOf_cases first last
  all_goals rw [htype]
  case inr.inr.inr.inr => exact ⟨first.minValue_le_toInt,first.toInt_le⟩
  all_goals exact ⟨hfirst,h.le.trans hlast⟩

theorem beginsAnew_iff :
    BeginsAnew first.toInt last.toInt ↔
      last.toInt ≤ first.toInt ∧ (counterOf first last).wrap first.toInt < last.toInt := by
  unfold BeginsAnew
  obtain ⟨htype,hfirst,hlast⟩ | ⟨htype,hfirst,_,hlast⟩ | ⟨htype,hfirst,hneg,hlast⟩ |
      ⟨htype,hfirst,hneg,hlast⟩ | ⟨htype,_⟩ := counterOf_cases first last
  all_goals rw [htype]
  case inl =>
    have hwrap : (CounterType.narrow .u8).wrap first.toInt = first.toInt % 256 := rfl
    omega
  case inr.inl =>
    have hwrap : (CounterType.narrow .u16).wrap first.toInt = first.toInt % 65536 := rfl
    omega
  case inr.inr.inl =>
    have hfits : (CounterType.narrow .i8).Fits first.toInt := ⟨hfirst,hneg.le.trans (by decide)⟩
    rw [CounterType.wrap_of_fits hfits]
    omega
  case inr.inr.inr.inl =>
    have hfits : (CounterType.narrow .i16).Fits first.toInt := ⟨hfirst,hneg.le.trans (by decide)⟩
    rw [CounterType.wrap_of_fits hfits]
    omega
  case inr.inr.inr.inr =>
    have hfits : CounterType.wide.Fits first.toInt := ⟨first.minValue_le_toInt,first.toInt_le⟩
    rw [CounterType.wrap_of_fits hfits]
    omega

theorem range_wrapped_iff :
    Int.range ((counterOf first last).wrap first.toInt) last.toInt =
      Int.range first.toInt last.toInt ↔ ¬BeginsAnew first.toInt last.toInt := by
  rw [beginsAnew_iff]
  by_cases h : first.toInt < last.toInt
  · simp [wrap_first_of_lt h, h]
  · rw [range_eq_nil_iff.mpr (not_lt.mp h), range_eq_nil_iff]
    omega

/-- The loop always ends, and its body is run for the numbers of the range, from the first one up and each
once, except if the counter begins anew before the last one. -/
theorem range_runs_declared_iff (s : Scope) (counter : String) (first last : Int32) (body : List Stmt)
    (loc : Option Location) :
    stmt s (.range counter first last body loc) =
        (do origin loc
            Emission.block (rangeLoop counter first last).header
            block s body
            close) ∧
      (rangeLoop counter first last).type.name = counterType first last ∧
      (∃! visited, (rangeLoop counter first last).Visits visited) ∧
      ((rangeLoop counter first last).Visits (Int.range first.toInt last.toInt) ↔
        ¬BeginsAnew first.toInt last.toInt) := by
  have hvisits := visits_wrapped counter first last
  refine ⟨?_,name_counterOf,⟨_,hvisits,fun _ h => h.unique hvisits⟩,?_⟩
  · rw [stmt, header_rangeLoop]
  · rw [← range_wrapped_iff]
    exact ⟨hvisits.unique,fun h => h ▸ hvisits⟩

/-- From 256 to 1 there is no number, and the body is run once, with a counter of zero. -/
theorem reversed_range_runs :
    rangeHeader "i" 256 1 = "for (uint8_t i = 256; i < 1; i++)" ∧ Int.range 256 1 = [] ∧
      (rangeLoop "i" 256 1).Visits [0] ∧ ¬(rangeLoop "i" 256 1).Visits (Int.range 256 1) := by
  have hzero : Int.range ((counterOf 256 1).wrap 256) 1 = [0] := by decide
  have hvisits : (rangeLoop "i" 256 1).Visits [0] := hzero ▸ visits_wrapped "i" 256 1
  exact ⟨rfl,by decide,hvisits,fun h => nomatch hvisits.unique h⟩

end Cartridge.Lower
