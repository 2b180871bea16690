import Cartridge.Proofs.Code.Name
import Cartridge.Proofs.Expr.Regroup
import Cartridge.Proofs.Fold.Every
import Cartridge.Proofs.Lower.Subscript

/-!
The text of an expression that was folded and checked. Names made from names of the game are C names, so what
folding and checks put into an expression can be read, and checks leave all parentheses where they were.
-/
namespace Cartridge

namespace Code.Name

open Token (isWordChar isIdentifier)

private theorem isDigit_iff (c : Char) : c.isDigit = true ↔ 48 ≤ c.toNat ∧ c.toNat ≤ 57 := by
  simp [Char.isDigit, UInt32.le_iff_toNat_le]

private theorem isWordChar_iff (c : Char) : isWordChar c = true ↔ 48 ≤ c.toNat ∧ c.toNat ≤ 57 ∨
    65 ≤ c.toNat ∧ c.toNat ≤ 90 ∨ 97 ≤ c.toNat ∧ c.toNat ≤ 122 ∨ c.toNat = 95 := by
  have hupper : c.isUpper = true ↔ 65 ≤ c.toNat ∧ c.toNat ≤ 90 := decide_eq_true_iff
  have hlower : c.isLower = true ↔ 97 ≤ c.toNat ∧ c.toNat ≤ 122 :=
    Bool.and_eq_true_iff.trans (and_congr decide_eq_true_iff decide_eq_true_iff)
  have hunderscore : c = '_' ↔ c.toNat = 95 := Char.toNat_inj.symm
  have hword : isWordChar c = ((c.isUpper || c.isLower || c.isDigit) || decide (c = '_')) := rfl
  simp only [hword, Bool.or_eq_true, hupper, hlower, isDigit_iff, decide_eq_true_eq, hunderscore]
  grind

theorem isWordChar_safe (c : Char) : isWordChar (safe c) = true := by
  rw [safe]
  split
  next h =>
    have hlower : 'a' ≤ c ∧ c ≤ 'z' ↔ 97 ≤ c.toNat ∧ c.toNat ≤ 122 := .rfl
    have hupper : 'A' ≤ c ∧ c ≤ 'Z' ↔ 65 ≤ c.toNat ∧ c.toNat ≤ 90 := .rfl
    have hunderscore : c = '_' ↔ c.toNat = 95 := Char.toNat_inj.symm
    simp only [isAlphanumeric, Bool.or_eq_true, Bool.and_eq_true, decide_eq_true_eq, isDigit_iff, hlower, hupper,
      hunderscore] at h
    rw [isWordChar_iff]
    grind
  next => decide

theorem isWordChar_upperChar {c : Char} (h : isWordChar c = true) : isWordChar (upperChar c) = true := by
  rw [isWordChar_iff, toNat_upperChar]
  rw [isWordChar_iff] at h
  grind

theorem isDigit_upperChar (c : Char) : (upperChar c).isDigit = c.isDigit := by
  rw [Bool.eq_iff_iff, isDigit_iff, isDigit_iff, toNat_upperChar]
  grind

theorem isIdentifier_iff {name : String} : isIdentifier name = true ↔
    ∃ c cs, name.toList = c :: cs ∧ c.isDigit = false ∧ ∀ d ∈ name.toList, isWordChar d = true := by
  unfold isIdentifier
  cases name.toList with
  | nil => simp
  | cons c cs => simp [and_comm, and_assoc]

theorem isIdentifier_ident (name : String) : isIdentifier (ident name) = true := by
  have hsafe : ∀ d ∈ name.toList.map safe, isWordChar d = true :=
    List.forall_mem_map.mpr fun c _ => isWordChar_safe c
  rw [ident]
  cases hchars : name.toList.map safe with
  | nil => decide
  | cons c cs =>
    rw [hchars] at hsafe
    rw [isIdentifier_iff, String.toList_ofList]
    split
    next => exact ⟨'_',c :: cs,rfl,by decide,List.forall_mem_cons.mpr ⟨by decide,hsafe⟩⟩
    next hdigit => exact ⟨c,cs,rfl,by simpa using hdigit,hsafe⟩

theorem isIdentifier_upper (name : String) : isIdentifier (upper name) = true := by
  obtain ⟨c,cs,hname,hdigit,hword⟩ := isIdentifier_iff.mp (isIdentifier_ident name)
  rw [isIdentifier_iff, upper, String.toList_ofList]
  refine ⟨upperChar c,cs.map upperChar,by rw [hname, List.map_cons],?_,List.forall_mem_map.mpr fun d hd => ?_⟩
  · rw [isDigit_upperChar, hdigit]
  · exact isWordChar_upperChar (hword d hd)

theorem isIdentifier_length (array : String) : isIdentifier (length array) = true := by
  obtain ⟨c,cs,hname,hdigit,hword⟩ := isIdentifier_iff.mp (isIdentifier_upper array)
  rw [isIdentifier_iff, length, String.toList_append]
  have hlast : "_LEN".toList.all isWordChar = true := by decide
  exact ⟨c,cs ++ "_LEN".toList,by rw [hname, List.cons_append],hdigit,
    List.forall_mem_append.mpr ⟨hword,List.all_eq_true.mp hlast⟩⟩

end Code.Name

namespace Expr

variable {h : String → Expr → Expr}

theorem isAt_mapSubscripts (level : Level) (e : Expr) : (e.mapSubscripts h).isAt level = e.isAt level := by
  cases e <;> rfl

theorem joins_mapSubscripts (op : BinOp) (e : Expr) : (e.mapSubscripts h).joins op = e.joins op := by
  cases e <;> rfl

theorem spine_mapSubscripts (e : Expr) : (e.mapSubscripts h).spine = e.spine := by
  induction e with
  | binary op l r ihl =>
    rw [mapSubscripts, spine, spine, isAt_mapSubscripts, ihl]
  | _ => rfl

theorem joint_mapSubscripts (e : Expr) : (e.mapSubscripts h).joint = e.joint := by
  cases e with
  | binary op l r => rw [mapSubscripts, joint, joint, joins_mapSubscripts, spine_mapSubscripts]
  | _ => rfl

end Expr

namespace Folder

variable (f : Folder)

theorem keeps_isNamed : f.Keeps Expr.IsNamed where
  int _ := trivial
  binary _ _ _ := trivial
  unary _ _ := trivial
  index _ _ := id
  call _ _ := id
  ternary _ _ _ := trivial

theorem keeps_isNumeric : f.Keeps Expr.IsNumeric where
  int _ := trivial
  binary _ _ _ := trivial
  unary _ _ := trivial
  index _ _ := id
  call _ _ := id
  ternary _ _ _ := trivial

end Folder

namespace Lower

open Cartridge.Expr

variable {s : Scope} {g : Game} {p : Expr → Prop}

theorem every_withCheck_iff (hcall : ∀ args, p (.call "BOUNDS_CHECK" args))
    (hlength : ∀ array, p (.var (Code.Name.length array))) (array : String) (e : Expr) :
    (withCheck g array e).Every p ↔ e.Every p := by
  unfold withCheck
  split
  next => simp [Expr.Every, EveryOf, hcall, hlength]
  next => rfl

/-- What holds of checks and does not depend on subscripts, a checked expression has if the unchecked one does. -/
theorem every_guarded_iff (hcall : ∀ args, p (.call "BOUNDS_CHECK" args))
    (hlength : ∀ array, p (.var (Code.Name.length array)))
    (hroot : ∀ h e, p (mapSubscripts h e) ↔ p e) (e : Expr) : (guarded s e).Every p ↔ e.Every p := by
  unfold guarded
  split
  next =>
    apply every_mapSubscripts_iff
    · exact fun array e =>
        and_congr (hroot _ (.index array e)) (every_withCheck_iff hcall hlength array _)
    · exact fun e _ => hroot _ e
  next => rfl

/-- The text of an expression that was folded and checked is read right if it keeps its quotients. -/
theorem isReadRight_guarded {f : Folder} {e : Expr} (hnamed : e.Every IsNamed) (hnum : e.Every IsNumeric)
    (hquot : (f.simplify e).Every KeepsQuotients) : (guarded s (f.simplify e)).IsReadRight := by
  have hcheck : Token.isIdentifier "BOUNDS_CHECK" = true := by decide
  refine isReadRight ((every_guarded_iff ?_ ?_ ?_ _).mpr (Folder.simplify_every f.keeps_isNamed hnamed))
    ((every_guarded_iff ?_ ?_ ?_ _).mpr (Folder.simplify_every f.keeps_isNumeric hnum))
    ((every_guarded_iff ?_ ?_ ?_ _).mpr hquot)
  · exact fun _ => hcheck
  · exact Code.Name.isIdentifier_length
  · exact fun h e => by cases e <;> rfl
  · exact fun _ => trivial
  · exact fun _ => trivial
  · exact fun h e => by cases e <;> rfl
  · exact fun _ => nofun
  · exact fun _ => nofun
  · exact fun h e => by rw [KeepsQuotients, KeepsQuotients, joint_mapSubscripts]

end Lower

end Cartridge
