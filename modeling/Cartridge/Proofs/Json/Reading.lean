import Cartridge.Proofs.Json.Scan

/-!
Reading back what was written. The words of a document take the reader from a place where a value may
stand to the place behind that value, so a document is found again in its text, in every layout.
-/
namespace Cartridge.Json

namespace Reading

def Expects (p : Phase) : Prop := p = .value ∨ p = .itemOrClose

theorem step_value {p : Phase} (hp : Expects p) {t : Token} (ht : t ≠ .closeArr)
    (frames : List Frame) : step ⟨p, frames⟩ t = beginValue t frames := by
  rcases hp with rfl | rfl
  · rfl
  · cases t <;> first | rfl | exact absurd rfl ht

mutual

/-- The words of a document deliver it to the innermost open bracket. -/
theorem foldlM_words : ∀ (j : Json) {p : Phase} (_ : Expects p) (frames : List Frame),
    j.words.foldlM step ⟨p, frames⟩ = deliver j frames
  | .null, _, hp, frames => by simp [words, step_value hp, beginValue]
  | .bool b, _, hp, frames => by simp [words, step_value hp, beginValue]
  | .num n, _, hp, frames => by simp [words, step_value hp, beginValue]
  | .str s, _, hp, frames => by simp [words, step_value hp, beginValue]
  | .arr [], _, hp, frames => by
    rw [words, List.foldlM_cons, step_value hp (by simp)]
    simp [beginValue, step, close]
  | .arr (item :: items), _, hp, frames => by
    rw [words, List.append_assoc, List.cons_append, List.foldlM_cons, step_value hp (by simp)]
    change (item.words ++ _).foldlM step ⟨.itemOrClose, .items [] :: frames⟩ = _
    rw [List.foldlM_append, foldlM_words item (.inr rfl)]
    exact foldlM_wordsOfItems items [item] frames
  | .obj [], _, hp, frames => by
    rw [words, List.foldlM_cons, step_value hp (by simp)]
    simp [beginValue, step, close]
  | .obj ((k, v) :: members), _, hp, frames => by
    rw [words, List.append_assoc, List.cons_append, List.foldlM_cons, step_value hp (by simp)]
    change (v.words ++ _).foldlM step ⟨.value, .value [] k :: frames⟩ = _
    rw [List.foldlM_append, foldlM_words v (.inl rfl)]
    exact foldlM_wordsOfMembers members [(k, v)] frames

theorem foldlM_wordsOfItems : ∀ (items done : List Json) (frames : List Frame),
    (wordsOfItems items ++ [Token.closeArr]).foldlM step ⟨.afterValue, .items done :: frames⟩ =
      deliver (.arr (done.reverse ++ items)) frames
  | [], done, frames => by simp [wordsOfItems, step, close]
  | item :: items, done, frames => by
    rw [wordsOfItems, List.append_assoc]
    change (item.words ++ _).foldlM step ⟨.value, .items done :: frames⟩ = _
    rw [List.foldlM_append, foldlM_words item (.inl rfl)]
    change (wordsOfItems items ++ _).foldlM step _ = _
    rw [foldlM_wordsOfItems items (item :: done) frames, List.reverse_cons, List.append_assoc]
    rfl

theorem foldlM_wordsOfMembers : ∀ (members done : List (Option String × Json))
    (frames : List Frame),
    (wordsOfMembers members ++ [Token.closeObj]).foldlM step
        ⟨.afterValue, .members done :: frames⟩ =
      deliver (.obj (done.reverse ++ members)) frames
  | [], done, frames => by simp [wordsOfMembers, step, close]
  | (k, v) :: members, done, frames => by
    rw [wordsOfMembers, List.append_assoc]
    change (v.words ++ _).foldlM step ⟨.value, .value done k :: frames⟩ = _
    rw [List.foldlM_append, foldlM_words v (.inl rfl)]
    change (wordsOfMembers members ++ _).foldlM step _ = _
    rw [foldlM_wordsOfMembers members ((k, v) :: done) frames, List.reverse_cons,
      List.append_assoc]
    rfl

end

end Reading

theorem ofWords?_words (j : Json) : ofWords? j.words = some j := by
  rw [ofWords?, Reading.start, Reading.foldlM_words j (.inl rfl)]
  rfl

theorem Layout.isBlank_indented : Layout.indented.IsBlank where
  lineBreak depth c hc := by
    rcases List.mem_cons.mp hc with rfl | hc
    · rfl
    · rw [List.eq_of_mem_replicate hc]
      rfl
  afterKey := ⟨[' '],rfl,by simp [Token.isBlank]⟩

/-- A plain document is found again in its text. -/
theorem parse?_pretty {j : Json} (hj : j.IsPlain) : parse? j.pretty = some j := by
  have hwords : words? (write .indented 0 j ++ []) = some (j.words ++ []) :=
    words?_write Layout.isBlank_indented j hj 0 Token.parted_nil (by rw [words?])
  rw [List.append_nil, List.append_nil] at hwords
  rw [parse?, pretty, String.toList_ofList, hwords, Option.bind_some, ofWords?_words]

end Cartridge.Json
