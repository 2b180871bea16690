import Cartridge.Expr.Fold

/-! All that one rule of the folder can do, as a relation between an expression and its result. -/
namespace Cartridge.Folder

/-- The rules, each with the condition it fires under. -/
inductive Rule (f : Folder) : Expr → Expr → Prop where
  | literals {op : BinOp} {a b v : Int32} (h : f.evaluate? op a b = some v) :
      Rule f (.binary op (.int a) (.int b)) (.int v)
  | zeroRight {op : BinOp} (h : op = .add ∨ op = .bitOr ∨ op = .bitXor ∨ op = .sub) (l : Expr) :
      Rule f (.binary op l (.int 0)) l
  | zeroLeft {op : BinOp} (h : op = .add ∨ op = .bitOr ∨ op = .bitXor) (r : Expr) :
      Rule f (.binary op (.int 0) r) r
  | oneRight {op : BinOp} (h : op = .mul ∨ op = .div) (l : Expr) : Rule f (.binary op l (.int 1)) l
  | oneLeft (r : Expr) : Rule f (.binary .mul (.int 1) r) r
  | absorbRight {op : BinOp} (h : op = .mul ∨ op = .bitAnd) {l : Expr} (hl : l.isPure = true) :
      Rule f (.binary op l (.int 0)) (.int 0)
  | absorbLeft {op : BinOp} (h : op = .mul ∨ op = .bitAnd) {r : Expr} (hr : r.isPure = true) :
      Rule f (.binary op (.int 0) r) (.int 0)
  | cancel {op : BinOp} (h : op = .sub ∨ op = .bitXor) (name : String) :
      Rule f (.binary op (.var name) (.var name)) (.int 0)
  | keep {op : BinOp} (h : op = .bitAnd ∨ op = .bitOr) (name : String) :
      Rule f (.binary op (.var name) (.var name)) (.var name)
  | shiftLeft {l : Expr} {k : Nat} (hk : 1 ≤ k ∧ k ≤ 15) (hu : f.isUnsigned l = true) :
      Rule f (.binary .mul l (.int (.ofNat (Nat.pow 2 k)))) (.binary .shl l (.int (.ofNat k)))
  | shiftRight {r : Expr} {k : Nat} (hk : 1 ≤ k ∧ k ≤ 15) (hu : f.isUnsigned r = true) :
      Rule f (.binary .mul (.int (.ofNat (Nat.pow 2 k))) r) (.binary .shl r (.int (.ofNat k)))
  | quotient {l : Expr} {k : Nat} (hk : 1 ≤ k ∧ k ≤ 15) (hu : f.isUnsigned l = true) :
      Rule f (.binary .div l (.int (.ofNat (Nat.pow 2 k)))) (.binary .shr l (.int (.ofNat k)))
  | twice (op : UnOp) (e : Expr) : Rule f (.unary op (.unary op e)) e
  | negLiteral (a : Int32) : Rule f (.unary .neg (.int a)) (.int (f.wrap (-a.toInt)))
  | notLiteral (a : Int32) : Rule f (.unary .not (.int a)) (.int (truth (a = 0)))
  | bitNotLiteral (a : Int32) : Rule f (.unary .bitNot (.int a)) (.int (f.wrap (~~~a).toInt))
  | chosen {c : Int32} (hc : c ≠ 0) (y n : Expr) : Rule f (.ternary (.int c) y n) y
  | refused (y n : Expr) : Rule f (.ternary (.int 0) y n) n

variable {f : Folder}

private theorem exponent?_eq_some {e : Expr} {k : Nat} (h : exponent? e = some k) :
    (1 ≤ k ∧ k ≤ 15) ∧ e = .int (.ofNat (Nat.pow 2 k)) := by
  have hmem := List.mem_of_find?_eq_some h
  have heq := List.find?_some h
  simp only [List.mem_range'_1] at hmem
  exact ⟨by omega,by simpa using heq⟩

private theorem literals?_rule {op : BinOp} {l r e : Expr} (h : f.literals? op l r = some e) :
    Rule f (.binary op l r) e := by
  unfold literals? at h
  split at h
  · obtain ⟨v,hv,rfl⟩ := Option.map_eq_some_iff.mp h
    exact .literals hv
  · cases h

private theorem absorb?_rule {op : BinOp} (hop : op = .mul ∨ op = .bitAnd) {l r e : Expr}
    (h : absorb? l r = some e) : Rule f (.binary op l r) e := by
  unfold absorb? at h
  split at h
  · rename_i hr
    obtain ⟨rfl,hl⟩ := hr
    cases h
    exact .absorbRight hop hl
  · split at h
    · rename_i hl
      obtain ⟨rfl,hr⟩ := hl
      cases h
      exact .absorbLeft hop hr
    · cases h

private theorem additive_rule {op : BinOp} (hop : op = .add ∨ op = .bitOr ∨ op = .bitXor)
    {l r e : Expr} (h : (if r = .int 0 then some l else if l = .int 0 then some r else none) = some e) :
    Rule f (.binary op l r) e := by
  split at h
  · subst r
    cases h
    exact .zeroRight (hop.imp_right (·.imp_right .inl)) l
  · split at h
    · subst l
      cases h
      exact .zeroLeft hop r
    · cases h

private theorem identity?_rule {op : BinOp} {l r e : Expr} (h : identity? op l r = some e) :
    Rule f (.binary op l r) e := by
  cases op with
  | add => exact additive_rule (.inl rfl) h
  | bitOr => exact additive_rule (.inr (.inl rfl)) h
  | bitXor => exact additive_rule (.inr (.inr rfl)) h
  | bitAnd => exact absorb?_rule (.inr rfl) h
  | sub =>
    obtain ⟨rfl,h⟩ : r = .int 0 ∧ some l = some e := by simpa [identity?] using h
    cases h
    exact .zeroRight (.inr (.inr (.inr rfl))) l
  | div =>
    obtain ⟨rfl,h⟩ : r = .int 1 ∧ some l = some e := by simpa [identity?] using h
    cases h
    exact .oneRight (.inr rfl) l
  | mul =>
    simp only [identity?] at h
    split at h
    · subst r
      cases h
      exact .oneRight (.inl rfl) l
    · split at h
      · subst l
        cases h
        exact .oneLeft r
      · exact absorb?_rule (.inl rfl) h
  | _ => cases h

private theorem cancel?_rule {op : BinOp} {l r e : Expr} (h : cancel? op l r = some e) :
    Rule f (.binary op l r) e := by
  unfold cancel? at h
  split at h
  · split at h
    · rename_i hab
      subst hab
      split at h
      · cases h
        exact .cancel (.inl rfl) _
      · cases h
        exact .cancel (.inr rfl) _
      · cases h
        exact .keep (.inl rfl) _
      · cases h
        exact .keep (.inr rfl) _
      · cases h
    · cases h
  · cases h

private theorem shift?_eq_some {op : BinOp} {x e : Expr} {k : Nat} (h : f.shift? op x k = some e) :
    f.isUnsigned x = true ∧ e = .binary op x (.int (.ofNat k)) := by
  unfold shift? at h
  split at h
  · cases h
    exact ⟨‹_›,rfl⟩
  · cases h

private theorem strength?_rule {op : BinOp} {l r e : Expr} (h : f.strength? op l r = some e) :
    Rule f (.binary op l r) e := by
  unfold strength? at h
  split at h
  · split at h
    · rename_i k _ hr
      obtain ⟨hk,rfl⟩ := exponent?_eq_some hr
      obtain ⟨hu,rfl⟩ := shift?_eq_some h
      exact .shiftLeft hk hu
    · rename_i k hl
      obtain ⟨hk,rfl⟩ := exponent?_eq_some hl
      obtain ⟨hu,rfl⟩ := shift?_eq_some h
      exact .shiftRight hk hu
    · cases h
  · obtain ⟨k,hr,hs⟩ := Option.bind_eq_some_iff.mp h
    obtain ⟨hk,rfl⟩ := exponent?_eq_some hr
    obtain ⟨hu,rfl⟩ := shift?_eq_some hs
    exact .quotient hk hu
  · cases h

private theorem unary?_rule {op : UnOp} {x e : Expr} (h : f.unary? op x = some e) :
    Rule f (.unary op x) e := by
  unfold unary? at h
  split at h
  · split at h
    · rename_i hop
      subst hop
      cases h
      exact .twice _ _
    · cases h
  · cases op with
    | neg =>
      cases h
      exact .negLiteral _
    | not =>
      cases h
      exact .notLiteral _
    | bitNot =>
      cases h
      exact .bitNotLiteral _
  · cases h

/-- Whatever fires at the root is one of the rules. -/
theorem rule_of_reduce? {e e' : Expr} (h : f.reduce? e = some e') : Rule f e e' := by
  unfold reduce? at h
  split at h
  · rcases Option.or_eq_some_iff.mp h with h | ⟨-,h⟩
    · exact literals?_rule h
    rcases Option.or_eq_some_iff.mp h with h | ⟨-,h⟩
    · exact identity?_rule h
    rcases Option.or_eq_some_iff.mp h with h | ⟨-,h⟩
    · exact cancel?_rule h
    · exact strength?_rule h
  · exact unary?_rule h
  · rename_i c y n
    cases h
    by_cases hc : c = 0
    · subst hc
      exact .refused y n
    · rw [if_pos hc]
      exact .chosen hc y n
  · cases h

end Cartridge.Folder
