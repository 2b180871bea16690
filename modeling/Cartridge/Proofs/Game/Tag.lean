import Cartridge.Game.Instance
import Mathlib.Data.List.Nodup

/-! The tags of a game. Every tag of an entity is listed, and once. -/
namespace Cartridge.Game

theorem foldl_distinct (names : List String) {seen : List String} (h : seen.Nodup) :
    (names.foldl (fun seen n => if seen.contains n then seen else seen ++ [n]) seen).Nodup ∧
      ∀ name, name ∈ names.foldl (fun seen n => if seen.contains n then seen else seen ++ [n]) seen ↔
        name ∈ seen ∨ name ∈ names := by
  induction names generalizing seen with
  | nil => simp [h]
  | cons n names ih =>
    rw [List.foldl_cons]
    by_cases hseen : n ∈ seen
    · rw [if_pos (by simpa using hseen)]
      obtain ⟨hnodup,hmem⟩ := ih h
      exact ⟨hnodup,fun name => by grind⟩
    · rw [if_neg (by simpa using hseen)]
      have hnew : (seen ++ [n]).Nodup := by grind
      obtain ⟨hnodup,hmem⟩ := ih hnew
      exact ⟨hnodup,fun name => by grind⟩

theorem nodup_distinct (names : List String) : (distinct names).Nodup := (foldl_distinct names List.nodup_nil).1

theorem mem_distinct {names : List String} {name : String} : name ∈ distinct names ↔ name ∈ names := by
  have h := (foldl_distinct names List.nodup_nil).2 name
  rwa [or_iff_right List.not_mem_nil] at h

theorem distinct_of_nodup {names : List String} (h : names.Nodup) : distinct names = names := by
  have hfold (names seen : List String) (h : (seen ++ names).Nodup) :
      names.foldl (fun seen n => if seen.contains n then seen else seen ++ [n]) seen = seen ++ names := by
    induction names generalizing seen with
    | nil => simp
    | cons n names ih =>
      have hnew : n ∉ seen := by grind
      rw [List.foldl_cons, if_neg (by simpa using hnew), ih _ (by simpa using h)]
      simp
  exact hfold names [] h

theorem hasTag_iff {g : Game} {tag : String} : g.hasTag tag = true ↔ tag ∈ g.entities.map Entity.tag := by
  rw [hasTag, tags, List.contains_iff_mem, mem_distinct]

end Cartridge.Game
