import Cartridge.Code.Name
import Mathlib.Data.List.Basic
import Mathlib.Data.List.Nodup
import Mathlib.Tactic.Common

/-!
Names that are put together. A stem and a last word are found again in the name they make, so that such names differ
wherever one of the two does. The members of an enumeration have one front, and the last of them counts the others.
-/
namespace Cartridge.Code.Name

theorem toNat_upperChar (c : Char) : (upperChar c).toNat =
    if 97 ≤ c.toNat ∧ c.toNat ≤ 122 then c.toNat - 32 else c.toNat := by
  rw [upperChar]
  split
  next h =>
    have hlow : 97 ≤ c.toNat := h.1
    have hhigh : c.toNat ≤ 122 := h.2
    rw [if_pos ⟨hlow,hhigh⟩, Char.ofNat, dif_pos (by left; omega)]
    rfl
  next h => exact (if_neg h).symm

def IsWord (word : String) : Prop := '_' ∉ word.toList

instance (word : String) : Decidable (IsWord word) := inferInstanceAs (Decidable (¬_))

def compound (parts : String × String) : String := parts.1 ++ "_" ++ parts.2

theorem toList_compound (parts : String × String) :
    (compound parts).toList = parts.1.toList ++ '_' :: parts.2.toList := by
  simp [compound]

/-- A text has one last underscore. -/
private theorem append_underscore_inj {xs ys zs ws : List Char} (hzs : '_' ∉ zs) (hws : '_' ∉ ws)
    (h : xs ++ '_' :: zs = ys ++ '_' :: ws) : xs = ys ∧ zs = ws := by
  rcases List.append_eq_append_iff.mp h with ⟨more,rfl,htail⟩ | ⟨more,rfl,htail⟩
  all_goals cases more with
    | nil => simpa [eq_comm] using htail
    | cons c more => simp_all

theorem compound_inj {p q : String × String} (hp : IsWord p.2) (hq : IsWord q.2) (h : compound p = compound q) :
    p = q := by
  have hlists := congrArg String.toList h
  rw [toList_compound, toList_compound] at hlists
  obtain ⟨hstem,hword⟩ := append_underscore_inj hp hq hlists
  exact Prod.ext (String.toList_inj.mp hstem) (String.toList_inj.mp hword)

/-- Compound names differ if and only if their parts do. -/
theorem nodup_map_compound_iff {parts : List (String × String)} (h : ∀ p ∈ parts, IsWord p.2) :
    (parts.map compound).Nodup ↔ parts.Nodup := by
  refine ⟨List.Nodup.of_map _,fun hparts => hparts.map_on fun p hp q hq => ?_⟩
  exact compound_inj (h p hp) (h q hq)

/-- The members of an enumeration: names in capitals behind a front, and their count. -/
def members (front : String) (names : List String) : List String :=
  names.map (fun name => front ++ upper name) ++ [front ++ "COUNT"]

/-- In capitals, names differ from each other and from the count. -/
structure Enumerable (names : List String) : Prop where
  nodup : (names.map upper).Nodup
  count : ∀ name ∈ names, upper name ≠ "COUNT"

theorem enumerable_nil : Enumerable [] := ⟨List.nodup_nil,nofun⟩

/-- The members of an enumeration differ if and only if its names do in capitals, and none of them is the count's. -/
theorem nodup_members_iff {front : String} {names : List String} :
    (members front names).Nodup ↔ Enumerable names := by
  have hinj : Function.Injective (front ++ ·) := fun a b => String.append_right_inj front |>.mp
  have hmap : members front names = (names.map upper ++ ["COUNT"]).map (front ++ ·) := by simp [members]
  rw [hmap, List.nodup_map_iff hinj, List.nodup_append]
  constructor
  · rintro ⟨hnames,-,hcount⟩
    exact ⟨hnames,fun name hname => hcount _ (List.mem_map_of_mem hname) _ List.mem_cons_self⟩
  · intro h
    exact ⟨h.nodup,List.nodup_singleton _,List.forall_mem_map.mpr fun name hname =>
      List.forall_mem_singleton.mpr (h.count name hname)⟩

end Cartridge.Code.Name
