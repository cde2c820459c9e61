import Offside.Proofs.Number.Grid
import Offside.Proofs.Token.Spelling

/-! Doubles that are written and read.

A decimal is written as a numeral, positionally or with an exponent, that stands for the same number
(`Numeral.amount`). The number lies between the midpoints around the double, so the numeral is read as
the double. Main statement: `Double.text_spelled`. -/
namespace Offside

open Text Number List

namespace Lexeme.Numeral

/-- The number that a numeral stands for. -/
def amount (n : Numeral) : ℚ :=
  digitsValue 10 (n.whole ++ n.fraction.getD []) * 10 ^ (n.exponent - (n.fraction.getD []).length)

theorem value_eq {n : Numeral} {x : Double} (hx : x.Plain) (hpos : 0 < x.significand)
    (h : x.Covers n.amount) : n.value = x :=
  Double.ofDecimal_eq hx hpos h

/-! ### Without an exponent -/

/-- Digits with zeros behind them. -/
def wholeNumeral (digits : List Char) (zeros : Nat) : Numeral :=
  ⟨digits ++ List.replicate zeros '0', some ['0'], none⟩

/-- Digits with a point before the last ones. -/
def pointNumeral (digits : List Char) (places : Nat) : Numeral :=
  let padded := List.replicate (places + 1 - digits.length) '0' ++ digits
  ⟨padded.take (padded.length - places), some (padded.drop (padded.length - places)), none⟩

theorem positional_eq (digits : List Char) (k : Int) : (Double.positional digits k).toList =
    if 0 ≤ k then (wholeNumeral digits k.toNat).text else (pointNumeral digits (-k).toNat).text := by
  unfold Double.positional
  split
  · simp [wholeNumeral, text, fractionText, powerText]
  · simp [pointNumeral, text, fractionText, powerText]

variable {digits : List Char} (hdigits : ∀ c ∈ digits, isDigit c = true) (hne : digits ≠ [])

theorem isDigit_of_mem_replicate {n : Nat} {c : Char} (h : c ∈ replicate n '0') : isDigit c := by
  rw [(mem_replicate.mp h).2]
  decide

include hdigits in
theorem isDigit_of_mem_padded {n : Nat} : ∀ c ∈ replicate n '0' ++ digits, isDigit c := by
  intro c hc
  rcases mem_append.mp hc with hc | hc
  · exact isDigit_of_mem_replicate hc
  · exact hdigits c hc

include hdigits hne in
theorem wholeNumeral_written (zeros : Nat) : (wholeNumeral digits zeros).Written := by
  refine ⟨⟨append_ne_nil_of_left_ne_nil hne _, fun c hc => ?_⟩, ?_, nofun⟩
  · rcases mem_append.mp hc with hc | hc
    · exact hdigits c hc
    · exact isDigit_of_mem_replicate hc
  · rintro _ ⟨⟩
    exact ⟨cons_ne_nil _ _, all_eq_true.mp rfl⟩

include hdigits in
theorem pointNumeral_written {places : Nat} (hplaces : 0 < places) : (pointNumeral digits places).Written := by
  have hpadded := isDigit_of_mem_padded hdigits (n := places + 1 - digits.length)
  have hlength : places < (List.replicate (places + 1 - digits.length) '0' ++ digits).length := by
    rw [List.length_append, List.length_replicate]
    omega
  refine ⟨⟨fun hnil => ?_, fun c hc => hpadded c (List.mem_of_mem_take hc)⟩, ?_, nofun⟩
  · have := congrArg List.length hnil
    simp only [pointNumeral, List.length_take, List.length_nil] at this
    omega
  · rintro _ ⟨⟩
    refine ⟨fun hnil => ?_, fun c hc => hpadded c (List.mem_of_mem_drop hc)⟩
    have := congrArg List.length hnil
    simp only [List.length_drop, List.length_nil] at this
    omega

theorem wholeNumeral_amount (digits : List Char) (zeros : Nat) :
    (wholeNumeral digits zeros).amount = digitsValue 10 digits * 10 ^ (zeros : Int) := by
  have hvalue : digitsValue 10 (digits ++ replicate zeros '0' ++ ['0']) =
      digitsValue 10 digits * 10 ^ zeros * 10 := by
    rw [digitsValue_append, digitsValue_append, digitsValue_zeros, length_replicate]
    rfl
  rw [amount]
  show (digitsValue 10 (digits ++ replicate zeros '0' ++ ['0']) : ℚ) * 10 ^ (0 - 1 : Int) = _
  rw [hvalue, zpow_natCast, zero_sub, zpow_neg_one]
  push_cast
  field_simp

theorem pointNumeral_amount (digits : List Char) (places : Nat) :
    (pointNumeral digits places).amount = digitsValue 10 digits * 10 ^ (-(places : Int)) := by
  have hvalue : digitsValue 10 (replicate (places + 1 - digits.length) '0' ++ digits) = digitsValue 10 digits := by
    rw [digitsValue_append, digitsValue_zeros, Nat.zero_mul, Nat.zero_add]
  have hlength : places < (replicate (places + 1 - digits.length) '0' ++ digits).length := by
    rw [length_append, length_replicate]
    omega
  rw [amount]
  simp only [pointNumeral, Option.getD_some, take_append_drop, hvalue, length_drop, exponent]
  congr 2
  omega

/-! ### With an exponent -/

/-- Digits with a point behind the first of them, and a power of ten. -/
def powerNumeral (digits : List Char) (power : Int) : Numeral :=
  ⟨digits.take 1, if digits.drop 1 = [] then none else some (digits.drop 1),
    some (if power < 0 then some '-' else none, Nat.toDigits 10 power.natAbs)⟩

theorem scientific_eq (digits : List Char) (k : Int) : (Double.scientific digits k).toList =
    (powerNumeral digits (k + (digits.length - 1 : Nat))).text := by
  unfold Double.scientific powerNumeral
  simp only
  generalize k + ((digits.length - 1 : Nat) : Int) = power
  have hrepr : (Nat.repr power.natAbs).toList = Nat.toDigits 10 power.natAbs := String.toList_ofList
  by_cases hpower : power < 0
  · rw [if_pos hpower, if_pos hpower]
    cases digits.drop 1 with
    | nil => simp [text, fractionText, powerText, hrepr]
    | cons c more => simp [text, fractionText, powerText, hrepr]
  · rw [if_neg hpower, if_neg hpower]
    cases digits.drop 1 with
    | nil => simp [text, fractionText, powerText, hrepr]
    | cons c more => simp [text, fractionText, powerText, hrepr]

include hdigits hne in
theorem powerNumeral_written (power : Int) : (powerNumeral digits power).Written := by
  refine ⟨⟨fun hnil => ?_, fun c hc => hdigits c (mem_of_mem_take hc)⟩, ?_, ?_⟩
  · rcases take_eq_nil_iff.mp hnil with h | h
    · cases h
    · exact hne h
  · intro more hmore
    simp only [powerNumeral] at hmore
    split at hmore
    · cases hmore
    · rename_i hsome
      cases hmore
      exact ⟨hsome, fun c hc => hdigits c (mem_of_mem_drop hc)⟩
  · rintro _ _ ⟨⟩
    refine ⟨fun s hs => ?_, toDigits_ne_nil _, isDigit_of_mem_toDigits _⟩
    split at hs
    · exact .inr (Option.some.inj hs).symm
    · cases hs

theorem powerNumeral_amount (digits : List Char) (power : Int) : (powerNumeral digits power).amount =
    digitsValue 10 digits * 10 ^ (power - (digits.length - 1 : Nat)) := by
  have hfraction : (powerNumeral digits power).fraction.getD [] = digits.drop 1 := by
    simp only [powerNumeral]
    split
    · rename_i h
      exact h.symm
    · rfl
  have hexponent : (powerNumeral digits power).exponent = power := by
    unfold powerNumeral exponent
    by_cases hpower : power < 0
    · simp only [if_pos hpower, digitsValue_toDigits]
      omega
    · simp only [if_neg hpower, digitsValue_toDigits]
      omega
  rw [amount, hfraction, hexponent, length_drop]
  show (digitsValue 10 (digits.take 1 ++ digits.drop 1) : ℚ) * _ = _
  rw [take_append_drop]

end Lexeme.Numeral

namespace Number.Double

variable {x : Double} {rest : List Char}

/-- A numeral for the decimal that is written for a double is read as the double. -/
theorem spelled_of_amount (hx : x.Plain) (hpos : 0 < x.significand) {n : Lexeme.Numeral}
    (hn : n.Written) (hfloat : n.isFloat) (hamount : n.amount = x.shortest.1 * 10 ^ x.shortest.2)
    (hrest : Boundary rest) : Spelled n.text (.float x) rest := by
  have hvalue : n.value = x := Lexeme.Numeral.value_eq hx hpos (hamount ▸ shortest_covers hx hpos)
  rw [← hvalue]
  exact Lexeme.Numeral.spelled_float hn hrest hfloat

theorem positional_spelled (hx : x.Plain) (hpos : 0 < x.significand) (hrest : Boundary rest) :
    Spelled (positional (Nat.toDigits 10 x.shortest.1) x.shortest.2).toList (.float x) rest := by
  have hdigits := isDigit_of_mem_toDigits x.shortest.1
  rw [Lexeme.Numeral.positional_eq]
  split
  · rename_i hk
    refine spelled_of_amount hx hpos (Lexeme.Numeral.wholeNumeral_written hdigits (toDigits_ne_nil _) _) rfl ?_ hrest
    rw [Lexeme.Numeral.wholeNumeral_amount, digitsValue_toDigits, Int.toNat_of_nonneg hk]
  · rename_i hk
    refine spelled_of_amount hx hpos (Lexeme.Numeral.pointNumeral_written hdigits (by omega)) rfl ?_ hrest
    rw [Lexeme.Numeral.pointNumeral_amount, digitsValue_toDigits, Int.toNat_of_nonneg (by omega), neg_neg]

theorem scientific_spelled (hx : x.Plain) (hpos : 0 < x.significand) (hrest : Boundary rest) :
    Spelled (scientific (Nat.toDigits 10 x.shortest.1) x.shortest.2).toList (.float x) rest := by
  rw [Lexeme.Numeral.scientific_eq]
  refine spelled_of_amount hx hpos (Lexeme.Numeral.powerNumeral_written
    (isDigit_of_mem_toDigits x.shortest.1) (toDigits_ne_nil _) _) (Bool.or_true _) ?_ hrest
  rw [Lexeme.Numeral.powerNumeral_amount, digitsValue_toDigits, add_sub_cancel_right]

theorem zero_spelled (hrest : Boundary rest) : Spelled "0.0".toList (.float ⟨0⟩) rest := by
  let n : Lexeme.Numeral := ⟨['0'], some ['0'], none⟩
  have hwritten : n.Written := by
    refine ⟨⟨cons_ne_nil _ _, all_eq_true.mp rfl⟩, ?_, nofun⟩
    rintro _ ⟨⟩
    exact ⟨cons_ne_nil _ _, all_eq_true.mp rfl⟩
  exact Lexeme.Numeral.spelled_float hwritten hrest rfl

theorem Readable.plain (hx : x.Readable) (hfinite : x ≠ infinity) : x.Plain :=
  lt_of_le_of_ne hx fun hbits => hfinite (congrArg Double.mk (UInt64.toNat_inj.mp hbits))

/-- **The text of a finite double is read as the double.** -/
theorem text_spelled (hx : x.Plain) (hrest : Boundary rest) : Spelled x.text.toList (.float x) rest := by
  have hfield := hx.exponentField_lt
  have hisNaN : x.isNaN = false := by simp [isNaN, hfield.ne]
  have hisFinite : x.isFinite := by simp [isFinite, hfield.ne]
  have hsign : x.isNegative = false := by
    have hlt : x.bits.toNat < twoTo 63 := lt_trans hx (by decide)
    rw [isNegative, Nat.div_eq_of_lt hlt]
    rfl
  unfold text magnitudeText
  rw [hsign, hisNaN, hisFinite]
  simp only [Bool.false_and, Bool.false_eq_true, if_false, Bool.not_true]
  split
  · rename_i hzero
    have hbits : x.bits.toNat = 0 := by
      rw [hx.bits_eq]
      rcases x.parts with ⟨hfield, _, hfraction⟩ | ⟨_, _, hfraction⟩
      · rw [hfield, ← hfraction, hzero, Nat.zero_mul]
      · omega
    have hx : x = ⟨0⟩ := congrArg Double.mk (UInt64.toNat_inj.mp hbits)
    rw [hx]
    exact zero_spelled hrest
  · rename_i hpos
    split
    · exact positional_spelled hx (Nat.pos_of_ne_zero hpos) hrest
    · exact scientific_spelled hx (Nat.pos_of_ne_zero hpos) hrest

end Number.Double

end Offside
