import Offside.Number.Decimal
import Mathlib.Algebra.GroupWithZero.Nat
import Mathlib.Data.List.Induction

/-! Digits that are written and read.

The decimal digits of a number are digits, there is at least one of them, and they stand for the number
(`digitsValue_toDigits`). -/
namespace Offside.Number

open Text List

theorem isDigit_digitChar {d : Nat} (h : d < 10) : isDigit d.digitChar := by
  revert d
  decide

theorem digitValue_digitChar {d : Nat} (h : d < 10) : digitValue d.digitChar = d := by
  revert d
  decide

theorem isDigit_of_mem_toDigits (n : Nat) : ∀ c ∈ Nat.toDigits 10 n, isDigit c := by
  induction n using Nat.strongRecOn with
  | ind n ih =>
    intro c hc
    by_cases hn : n < 10
    · rw [Nat.toDigits_of_lt_base hn] at hc
      rw [mem_singleton.mp hc]
      exact isDigit_digitChar hn
    · rw [Nat.toDigits_of_base_le (by decide) (by omega)] at hc
      rcases mem_append.mp hc with hc | hc
      · exact ih (n / 10) (by omega) c hc
      · rw [mem_singleton.mp hc]
        exact isDigit_digitChar (Nat.mod_lt _ (by decide))

theorem toDigits_ne_nil (n : Nat) : Nat.toDigits 10 n ≠ [] := by
  by_cases hn : n < 10
  · rw [Nat.toDigits_of_lt_base hn]
    simp
  · rw [Nat.toDigits_of_base_le (by decide) (by omega)]
    simp

/-- The number of digits tells between which powers of ten a number lies. -/
theorem toDigits_bounds {n : Nat} (h : 0 < n) :
    10 ^ ((Nat.toDigits 10 n).length - 1) ≤ n ∧ n < 10 ^ (Nat.toDigits 10 n).length := by
  induction n using Nat.strongRecOn with
  | ind n ih =>
    by_cases hn : n < 10
    · rw [Nat.toDigits_of_lt_base hn]
      exact ⟨h, hn⟩
    · obtain ⟨hlow, hhigh⟩ := ih (n / 10) (by omega) (by omega)
      obtain ⟨l, hl⟩ : ∃ l, (Nat.toDigits 10 (n / 10)).length = l + 1 :=
        Nat.exists_eq_succ_of_ne_zero (mt length_eq_zero_iff.mp (toDigits_ne_nil (n / 10)))
      rw [Nat.toDigits_of_base_le (by decide) (by omega), length_append, length_singleton, hl, Nat.add_sub_cancel]
      rw [hl, Nat.add_sub_cancel] at hlow
      rw [hl] at hhigh
      rw [Nat.pow_succ] at hhigh ⊢
      omega

/-- Digits stand for the number they were written for. -/
theorem digitsValue_toDigits (n : Nat) : digitsValue 10 (Nat.toDigits 10 n) = n := by
  induction n using Nat.strongRecOn with
  | ind n ih =>
    by_cases hn : n < 10
    · rw [Nat.toDigits_of_lt_base hn]
      show 0 * 10 + digitValue n.digitChar = n
      rw [digitValue_digitChar hn]
      omega
    · rw [Nat.toDigits_of_base_le (by decide) (by omega), digitsValue_append_singleton,
        ih (n / 10) (by omega), digitValue_digitChar (Nat.mod_lt _ (by decide))]
      omega

/-- Digits behind digits move the first ones up. -/
theorem digitsValue_append (front back : List Char) :
    digitsValue 10 (front ++ back) = digitsValue 10 front * 10 ^ back.length + digitsValue 10 back := by
  induction back using reverseRecOn with
  | nil => simp [digitsValue]
  | append_singleton back c ih =>
    rw [← append_assoc, digitsValue_append_singleton, ih, digitsValue_append_singleton,
      length_append, length_singleton, Nat.pow_succ, Nat.add_mul, Nat.mul_assoc, Nat.add_assoc]

theorem digitsValue_zeros (n : Nat) : digitsValue 10 (replicate n '0') = 0 := by
  induction n with
  | zero => rfl
  | succ n ih =>
    rw [replicate_succ', digitsValue_append_singleton, ih]
    rfl

end Offside.Number
