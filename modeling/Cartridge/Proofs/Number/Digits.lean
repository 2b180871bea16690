/-! Decimal digits of natural numbers as characters. -/
namespace Cartridge

/-- Only digits are written. -/
theorem isDigit_of_mem_toDigits {n : Nat} {c : Char} (h : c ∈ Nat.toDigits 10 n) :
    c.isDigit = true :=
  Nat.isDigit_of_mem_toDigits (by omega) (by omega) h

/-- A positive number is not written with a leading zero. -/
theorem toDigits_head {n : Nat} (hn : 0 < n) :
    ∃ c cs, Nat.toDigits 10 n = c :: cs ∧ c ≠ '0' := by
  induction n using Nat.base_induction 10 (by omega) with
  | single m hm =>
    refine ⟨m.digitChar,[],Nat.toDigits_of_lt_base hm,?_⟩
    have hdigit : ∀ k : Fin 10, 0 < k.val → k.val.digitChar ≠ '0' := by decide
    exact hdigit ⟨m,hm⟩ hn
  | digit m k hk hm ih =>
    obtain ⟨c,cs,he,hc⟩ := ih hm
    refine ⟨c,cs ++ Nat.toDigits 10 k,?_,hc⟩
    rw [← Nat.toDigits_append_toDigits (by omega) hm hk, he, List.cons_append]

end Cartridge
