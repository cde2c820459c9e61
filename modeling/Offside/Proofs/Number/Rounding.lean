import Offside.Number.Shortest
import Offside.Proofs.Number.Digits
import Mathlib.Algebra.Order.Field.Power
import Mathlib.Algebra.Order.Ring.Rat
import Mathlib.Tactic.FieldSimp
import Mathlib.Tactic.Linarith
import Mathlib.Tactic.Positivity
import Mathlib.Tactic.Ring

/-! Which fractions are read as a double.

A fraction is read as `x` when it lies between the midpoints to the neighbours of `x` (`Double.Covers`),
the midpoints included if the significand is even. Rounding in the unit of `x` then gives its significand;
just below a power of two the unit is half as great, and the carry makes up for it. Main statement:
`Double.ofDecimal_eq`, for decimals with any number of digits. -/
namespace Offside.Number

/-! ### Powers -/

theorem cast_twoTo (n : Nat) : (twoTo n : ℚ) = 2 ^ n := Nat.cast_pow 2 n

theorem cast_tenTo (n : Nat) : (tenTo n : ℚ) = 10 ^ n := Nat.cast_pow 10 n

theorem pow_toNat {a : ℚ} {e : Int} (h : 0 ≤ e) : a ^ e.toNat = a ^ e := by
  rw [← zpow_natCast, Int.toNat_of_nonneg h]

theorem two_zpow_pos (e : Int) : (0 : ℚ) < 2 ^ e := zpow_pos (by norm_num) e

namespace Double

variable {e : Int} {v : ℚ}

/-! ### Rounding a quotient -/

/-- A quotient within half a unit of a number rounds to it, if a tie finds it even. -/
theorem divNearest_eq {num den m : Nat} (hden : 0 < den) (hlow : (m : ℚ) - 1 / 2 ≤ num / den)
    (hhigh : (num : ℚ) / den ≤ m + 1 / 2)
    (hodd : m % 2 = 1 → (m : ℚ) - 1 / 2 < num / den ∧ (num : ℚ) / den < m + 1 / 2) :
    divNearest num den = m := by
  have hden' : (0 : ℚ) < den := by exact_mod_cast hden
  have hlow : 2 * m * den ≤ 2 * num + den := by
    rw [le_div_iff₀ hden'] at hlow
    have : (2 * m * den : ℚ) ≤ 2 * num + den := by linarith
    exact_mod_cast this
  have hhigh : 2 * num ≤ 2 * m * den + den := by
    rw [div_le_iff₀ hden'] at hhigh
    have : (2 * num : ℚ) ≤ 2 * m * den + den := by linarith
    exact_mod_cast this
  have hodd : m % 2 = 1 → 2 * m * den < 2 * num + den ∧ 2 * num < 2 * m * den + den := by
    intro hm
    obtain ⟨hl, hh⟩ := hodd hm
    rw [lt_div_iff₀ hden'] at hl
    rw [div_lt_iff₀ hden'] at hh
    have hl : (2 * m * den : ℚ) < 2 * num + den := by linarith
    have hh : (2 * num : ℚ) < 2 * m * den + den := by linarith
    exact ⟨by exact_mod_cast hl, by exact_mod_cast hh⟩
  -- In whole numbers: the quotient is the number or one less, and the remainder tells which.
  obtain ⟨q, r, hr, rfl⟩ : ∃ q r, r < den ∧ num = den * q + r :=
    ⟨num / den, num % den, Nat.mod_lt _ hden, (Nat.div_add_mod num den).symm⟩
  have hq : (den * q + r) / den = q := by
    rw [Nat.mul_add_div hden, Nat.div_eq_of_lt hr, Nat.add_zero]
  have hmod : (den * q + r) % den = r := by rw [Nat.mul_add_mod, Nat.mod_eq_of_lt hr]
  have hle : m ≤ q + 1 := by
    by_contra hlt
    have : (q + 2) * den ≤ m * den := Nat.mul_le_mul_right den (by omega)
    nlinarith
  have hge : q ≤ m := by
    by_contra hlt
    have : (m + 1) * den ≤ q * den := Nat.mul_le_mul_right den (by omega)
    nlinarith
  unfold divNearest
  simp only [hq, hmod]
  rcases (by omega : m = q ∨ m = q + 1) with rfl | rfl
  · have hmul : 2 * m * den = 2 * (den * m) := by ring
    rw [hmul] at hhigh hodd
    rw [if_neg]
    simp only [Bool.or_eq_true, Bool.and_eq_true, decide_eq_true_eq, beq_iff_eq]
    omega
  · have hmul : 2 * (q + 1) * den = 2 * (den * q) + 2 * den := by ring
    rw [hmul] at hlow hodd
    rw [if_pos]
    simp only [Bool.or_eq_true, Bool.and_eq_true, decide_eq_true_eq, beq_iff_eq]
    omega

/-! ### The binary order of a quotient -/

theorem two_zpow_log2_le {n : Nat} (h : 0 < n) : (2 : ℚ) ^ (n.log2 : Int) ≤ n := by
  rw [zpow_natCast]
  exact_mod_cast Nat.log2_self_le h.ne'

theorem lt_two_zpow_log2 (n : Nat) : (n : ℚ) < 2 ^ ((n.log2 : Int) + 1) := by
  rw [← Nat.cast_succ, zpow_natCast]
  exact_mod_cast Nat.lt_log2_self

/-- Dividing by a power of two, in whole numbers. -/
theorem scaled_eq (num den : Nat) (e : Int) :
    (if 0 ≤ e then (num : ℚ) / (den * twoTo e.toNat : Nat) else (num * twoTo (-e).toNat : Nat) / den) =
      num / den / 2 ^ e := by
  split
  · rename_i h
    rw [Nat.cast_mul, cast_twoTo, pow_toNat h, div_mul_eq_div_div]
  · rename_i h
    rw [Nat.cast_mul, cast_twoTo, pow_toNat (by omega), zpow_neg]
    ring

/-- Comparing with a power of two, in whole numbers. -/
theorem below_iff {num den : Nat} (hden : 0 < den) (e : Int) :
    (if 0 ≤ e then num < den * twoTo e.toNat else num * twoTo (-e).toNat < den) ↔ (num : ℚ) / den < 2 ^ e := by
  have hden' : (0 : ℚ) < den := by exact_mod_cast hden
  rw [div_lt_iff₀ hden']
  split
  · rename_i h
    rw [← Nat.cast_lt (α := ℚ), Nat.cast_mul, cast_twoTo, pow_toNat h, mul_comm]
  · rename_i h
    rw [← Nat.cast_lt (α := ℚ), Nat.cast_mul, cast_twoTo, pow_toNat (by omega), zpow_neg,
      ← div_eq_mul_inv, div_lt_iff₀ (two_zpow_pos e), mul_comm]

theorem floorLog2_spec {num den : Nat} (hnum : 0 < num) (hden : 0 < den) :
    (2 : ℚ) ^ floorLog2 num den ≤ num / den ∧ (num : ℚ) / den < 2 ^ (floorLog2 num den + 1) := by
  have hden' : (0 : ℚ) < den := by exact_mod_cast hden
  have hbelow := @below_iff num den hden (num.log2 - den.log2)
  have hlower : (2 : ℚ) ^ ((num.log2 : Int) - den.log2 - 1) ≤ num / den := by
    rw [le_div_iff₀ hden', show (num.log2 : Int) - den.log2 - 1 = num.log2 - (den.log2 + 1) by ring,
      zpow_sub₀ (by norm_num), div_mul_eq_mul_div, div_le_iff₀ (two_zpow_pos _)]
    exact mul_le_mul (two_zpow_log2_le hnum) (lt_two_zpow_log2 den).le hden'.le (Nat.cast_nonneg _)
  have hupper : (num : ℚ) / den < 2 ^ ((num.log2 : Int) - den.log2 + 1) := by
    rw [div_lt_iff₀ hden', show (num.log2 : Int) - den.log2 + 1 = num.log2 + 1 - den.log2 by ring,
      zpow_sub₀ (by norm_num), div_mul_eq_mul_div, lt_div_iff₀ (two_zpow_pos _)]
    exact mul_lt_mul (lt_two_zpow_log2 num) (two_zpow_log2_le hden) (two_zpow_pos _) (two_zpow_pos _).le
  unfold floorLog2
  simp only
  by_cases h : (num : ℚ) / den < 2 ^ ((num.log2 : Int) - den.log2)
  · rw [if_pos (hbelow.mpr h), sub_add_cancel]
    exact ⟨hlower, h⟩
  · rw [if_neg (mt hbelow.mp h)]
    exact ⟨not_lt.mp h, hupper⟩

/-- The order is the only exponent that fits. -/
theorem floorLog2_eq {num den : Nat} (hnum : 0 < num) (hden : 0 < den)
    (hle : (2 : ℚ) ^ e ≤ num / den) (hlt : (num : ℚ) / den < 2 ^ (e + 1)) : floorLog2 num den = e := by
  obtain ⟨hle', hlt'⟩ := floorLog2_spec hnum hden
  have h1 : e < floorLog2 num den + 1 := (zpow_lt_zpow_iff_right₀ (by norm_num)).mp (hle.trans_lt hlt')
  have h2 : floorLog2 num den < e + 1 := (zpow_lt_zpow_iff_right₀ (by norm_num)).mp (hle'.trans_lt hlt)
  omega

/-! ### The parts of a double -/

/-- Finite doubles without a sign. -/
def Plain (x : Double) : Prop := x.bits.toNat < infinity.bits.toNat

variable {x : Double}

theorem fraction_lt (x : Double) : x.fraction < 2 ^ 52 := Nat.mod_lt _ (by decide)

theorem Plain.bits_eq (hx : x.Plain) : x.bits.toNat = x.exponentField * 2 ^ 52 + x.fraction := by
  have hlt : x.bits.toNat < twoTo 63 := lt_trans hx (by decide)
  have hmagnitude : x.magnitudeBits = x.bits.toNat := Nat.mod_eq_of_lt hlt
  rw [← hmagnitude, mul_comm]
  exact (Nat.div_add_mod _ _).symm

theorem Plain.exponentField_lt (hx : x.Plain) : x.exponentField < 0x7ff := by
  have hbits : x.bits.toNat < 0x7ff * 2 ^ 52 := hx
  rw [hx.bits_eq] at hbits
  omega

/-- What the significand and the exponent of a double can be. -/
theorem parts (x : Double) : x.exponentField = 0 ∧ x.exponent = -1074 ∧ x.significand = x.fraction ∨
      0 < x.exponentField ∧ x.exponent = -1075 + x.exponentField ∧ x.significand = x.fraction + 2 ^ 52 := by
  unfold exponent significand leastExponent
  by_cases h : x.exponentField = 0
  · rw [if_pos h, if_pos h]
    exact .inl ⟨h, rfl, rfl⟩
  · rw [if_neg h, if_neg h]
    exact .inr ⟨by omega, by omega, rfl⟩

/-- The bits of a double are its significand, moved up by its exponent. -/
theorem Plain.bits_eq_significand (hx : x.Plain) :
    x.bits.toNat = (x.exponent - leastExponent).toNat * twoTo fractionBits + x.significand := by
  have htwo : twoTo fractionBits = 2 ^ 52 := rfl
  rw [hx.bits_eq, htwo, leastExponent]
  rcases x.parts with ⟨h, he, hm⟩ | ⟨h, he, hm⟩
  · rw [h, he, hm]
    rfl
  · rw [he, hm]
    have hfield : (-1075 + (x.exponentField : Int) - -1074).toNat = x.exponentField - 1 := by omega
    rw [hfield]
    omega

/-! ### The numbers around a double -/

/-- The fractions that are read as `x`: those between the midpoints to its neighbours. -/
structure Covers (x : Double) (v : ℚ) : Prop where
  low : x.lowQuarters * (2 : ℚ) ^ (x.exponent - 2) ≤ v
  high : v ≤ x.highQuarters * (2 : ℚ) ^ (x.exponent - 2)
  odd : x.significand % 2 = 1 →
    x.lowQuarters * (2 : ℚ) ^ (x.exponent - 2) < v ∧ v < x.highQuarters * (2 : ℚ) ^ (x.exponent - 2)

/-- Rounding in a given unit. -/
theorem ofRatio_of_unit {num den m : Nat} {unit : Int} (hx : x.Plain) (hnum : 0 < num) (hden : 0 < den)
    (hunit : max (floorLog2 num den - fractionBits) leastExponent = unit)
    (hlow : (m : ℚ) - 1 / 2 ≤ num / den / 2 ^ unit) (hhigh : (num : ℚ) / den / 2 ^ unit ≤ m + 1 / 2)
    (hodd : m % 2 = 1 → (m : ℚ) - 1 / 2 < num / den / 2 ^ unit ∧ (num : ℚ) / den / 2 ^ unit < m + 1 / 2)
    (hbits : (unit - leastExponent).toNat * twoTo fractionBits + m = x.bits.toNat) :
    ofRatio num den = x := by
  have hpow (n : Nat) : 0 < twoTo n := Nat.pow_pos (by decide)
  have hround : (if 0 ≤ unit then divNearest num (den * twoTo unit.toNat)
      else divNearest (num * twoTo (-unit).toNat) den) = m := by
    rw [← scaled_eq] at hlow hhigh hodd
    split
    · rename_i h
      rw [if_pos h] at hlow hhigh hodd
      exact divNearest_eq (Nat.mul_pos hden (hpow _)) hlow hhigh hodd
    · rename_i h
      rw [if_neg h] at hlow hhigh hodd
      exact divNearest_eq hden hlow hhigh hodd
  unfold ofRatio
  rw [if_neg hnum.ne']
  simp only [hunit, hround, hbits]
  rw [if_neg (Nat.not_le.mpr hx), UInt64.ofNat_toNat]

theorem lowQuarters_ge (x : Double) : 4 * x.significand - 2 ≤ x.lowQuarters := by
  unfold lowQuarters
  simp only
  split <;> omega

/-- The bounds in units of the last place. -/
theorem Covers.scaled (h : x.Covers v) :
    (x.lowQuarters : ℚ) / 4 ≤ v / 2 ^ x.exponent ∧ v / 2 ^ x.exponent ≤ x.significand + 1 / 2 ∧
      (x.significand % 2 = 1 →
        (x.lowQuarters : ℚ) / 4 < v / 2 ^ x.exponent ∧ v / 2 ^ x.exponent < x.significand + 1 / 2) := by
  have hunit := two_zpow_pos x.exponent
  have hquarter : (2 : ℚ) ^ (x.exponent - 2) = 2 ^ x.exponent / 4 := by
    rw [zpow_sub₀ (by norm_num)]
    norm_num
  have hhighQuarters : (x.highQuarters : ℚ) = 4 * x.significand + 2 := by
    rw [highQuarters]
    push_cast
    ring
  obtain ⟨hlow, hhigh, hodd⟩ := h
  rw [hquarter] at hlow hhigh hodd
  rw [hhighQuarters] at hhigh hodd
  rw [le_div_iff₀ hunit, div_le_iff₀ hunit, lt_div_iff₀ hunit, div_lt_iff₀ hunit]
  refine ⟨by linarith, by linarith, fun hm => ?_⟩
  obtain ⟨hl, hh⟩ := hodd hm
  exact ⟨by linarith, by linarith⟩

/-- Just below a double there may be smaller units: it is a power of two then. -/
theorem lowQuarters_of_lt (hexponent : -1074 < x.exponent)
    (h : x.lowQuarters < 2 ^ 54) : x.significand = 2 ^ 52 ∧ x.lowQuarters = 2 ^ 54 - 1 := by
  have hge := x.lowQuarters_ge
  have hfraction := x.fraction_lt
  rcases x.parts with ⟨_, he, _⟩ | ⟨_, he, hm⟩
  · omega
  · have hzero : x.fraction = 0 := by omega
    have hfield : 1 < x.exponentField := by omega
    have hlow : x.lowQuarters = 4 * x.significand - 1 := by
      unfold lowQuarters
      simp only
      rw [if_pos (by simp [hzero, hfield])]
    omega

theorem significand_lt (x : Double) : x.significand < 2 ^ 53 := by
  have hfraction := x.fraction_lt
  rcases x.parts with ⟨_, _, hm⟩ | ⟨_, _, hm⟩
  · omega
  · omega

theorem leastExponent_le (x : Double) : leastExponent ≤ x.exponent := by
  have hleast : leastExponent = -1074 := rfl
  rcases x.parts with ⟨_, he, _⟩ | ⟨_, he, _⟩
  · omega
  · omega

theorem Plain.exponent_le (hx : x.Plain) : x.exponent ≤ 971 := by
  have hfield := hx.exponentField_lt
  rcases x.parts with ⟨_, he, _⟩ | ⟨_, he, _⟩
  · omega
  · omega

theorem two_zpow_lt_iff {e' : Int} : (2 : ℚ) ^ e < 2 ^ e' ↔ e < e' := zpow_lt_zpow_iff_right₀ (by norm_num)

theorem two_zpow_add (e : Int) (n : Nat) : (2 : ℚ) ^ (e + n) = 2 ^ n * 2 ^ e := by
  rw [zpow_add₀ (by norm_num), zpow_natCast, mul_comm]

theorem Covers.positive (h : x.Covers v) (hpos : 0 < x.significand) : 0 < v := by
  have hlow : 0 < x.lowQuarters := by
    have := x.lowQuarters_ge
    omega
  exact lt_of_lt_of_le (mul_pos (by exact_mod_cast hlow) (two_zpow_pos _)) h.low

theorem Covers.lt (h : x.Covers v) : v < 2 ^ (x.exponent + 53) := by
  have hmax : (x.significand : ℚ) + 1 ≤ 2 ^ 53 := by exact_mod_cast x.significand_lt
  have hpow : (2 : ℚ) ^ (x.exponent + 53) = 2 ^ 53 * 2 ^ x.exponent := two_zpow_add x.exponent 53
  rw [hpow, ← div_lt_iff₀ (two_zpow_pos _)]
  linarith [h.scaled.2.1]

/-- Rounding in the unit of the double. -/
theorem ofRatio_in_unit {num den : Nat} (hx : x.Plain) (hnum : 0 < num) (hden : 0 < den) (h : x.Covers (num / den))
    (hunit : (2 : ℚ) ^ (x.exponent + 52) ≤ num / den ∨ x.exponent = leastExponent) :
    ofRatio num den = x := by
  obtain ⟨hlow, hhigh, hodd⟩ := h.scaled
  have hge : (4 : ℚ) * x.significand - 2 ≤ x.lowQuarters := by
    have hle : 4 * x.significand ≤ x.lowQuarters + 2 := by
      have := x.lowQuarters_ge
      omega
    have hcast : (4 * x.significand : ℚ) ≤ x.lowQuarters + 2 := by exact_mod_cast hle
    linarith
  refine ofRatio_of_unit hx hnum hden ?_ (by linarith) hhigh (fun hm => ?_) hx.bits_eq_significand.symm
  · have hleast := x.leastExponent_le
    have hfloor := floorLog2_spec hnum hden
    have hlt := two_zpow_lt_iff.mp (hfloor.1.trans_lt h.lt)
    have hbits : (fractionBits : Int) = 52 := rfl
    rcases hunit with hbig | hleast'
    · have hgt := two_zpow_lt_iff.mp (hbig.trans_lt hfloor.2)
      omega
    · omega
  · obtain ⟨hl, hh⟩ := hodd hm
    exact ⟨by linarith, hh⟩

/-- Rounding just below a power of two: in half the unit, with a carry into the next binade. -/
theorem ofRatio_below_power {num den : Nat} (hx : x.Plain) (hnum : 0 < num) (hden : 0 < den)
    (h : x.Covers (num / den)) (hbelow : (num : ℚ) / den < 2 ^ (x.exponent + 52))
    (hexponent : leastExponent < x.exponent) : ofRatio num den = x := by
  obtain ⟨hlow, _, _⟩ := h.scaled
  have hless : (num : ℚ) / den / 2 ^ x.exponent < 2 ^ 52 := by
    rw [div_lt_iff₀ (two_zpow_pos _)]
    exact hbelow.trans_eq (two_zpow_add x.exponent 52)
  have hlowQuarters : x.lowQuarters < 2 ^ 54 := by
    have hcast : (x.lowQuarters : ℚ) < 2 ^ 54 := by linarith
    exact_mod_cast hcast
  obtain ⟨hm, hquarters⟩ := lowQuarters_of_lt hexponent hlowQuarters
  have hcast : (x.lowQuarters : ℚ) = 2 ^ 54 - 1 := by rw [hquarters]; norm_num
  rw [hcast] at hlow
  have hfloor : floorLog2 num den = x.exponent + 51 := by
    have hpow : (2 : ℚ) ^ (x.exponent + 51) = 2 ^ 51 * 2 ^ x.exponent := two_zpow_add x.exponent 51
    refine floorLog2_eq hnum hden ?_ (by rwa [add_assoc])
    rw [hpow, ← le_div_iff₀ (two_zpow_pos _)]
    linarith
  have hunit : max (floorLog2 num den - fractionBits) leastExponent = x.exponent - 1 := by
    have hbits : (fractionBits : Int) = 52 := rfl
    omega
  have hhalf : (num : ℚ) / den / 2 ^ (x.exponent - 1) = 2 * (num / den / 2 ^ x.exponent) := by
    rw [zpow_sub₀ (by norm_num), zpow_one]
    field_simp
  have hodd : ¬ (2 ^ 53) % 2 = 1 := by decide
  refine ofRatio_of_unit (m := 2 ^ 53) hx hnum hden hunit ?_ ?_ (fun h => absurd h hodd) ?_
  · rw [hhalf]
    push_cast
    linarith
  · rw [hhalf]
    push_cast
    linarith
  · have htwo : twoTo fractionBits = 2 ^ 52 := rfl
    have hleast : leastExponent = -1074 := rfl
    rw [hx.bits_eq_significand, hm, htwo]
    have hstep : (x.exponent - leastExponent).toNat = (x.exponent - 1 - leastExponent).toNat + 1 := by omega
    rw [hstep]
    ring

/-- **A fraction between the midpoints around a double is read as the double.** -/
theorem ofRatio_eq {num den : Nat} (hx : x.Plain) (hpos : 0 < x.significand) (hden : 0 < den)
    (h : x.Covers (num / den)) : ofRatio num den = x := by
  have hnum : 0 < num := by
    rcases Nat.eq_zero_or_pos num with rfl | hnum
    · have hpositive := h.positive hpos
      rw [Nat.cast_zero, zero_div] at hpositive
      exact absurd hpositive (lt_irrefl 0)
    · exact hnum
  by_cases hunit : (2 : ℚ) ^ (x.exponent + 52) ≤ num / den ∨ x.exponent = leastExponent
  · exact ofRatio_in_unit hx hnum hden h hunit
  · obtain ⟨hbelow, hne⟩ := not_or.mp hunit
    have hexponent := lt_of_le_of_ne x.leastExponent_le (Ne.symm hne)
    exact ofRatio_below_power hx hnum hden h (not_le.mp hbelow) hexponent

/-! ### Decimals -/

theorem ten_zpow_pos (e : Int) : (0 : ℚ) < 10 ^ e := zpow_pos (by norm_num) e

theorem ten_zpow_lt_iff {e' : Int} : (10 : ℚ) ^ e < 10 ^ e' ↔ e < e' := zpow_lt_zpow_iff_right₀ (by norm_num)

theorem decimalLength_bounds {n : Nat} (h : 0 < n) :
    (10 : ℚ) ^ ((decimalLength n : Int) - 1) ≤ n ∧ (n : ℚ) < 10 ^ (decimalLength n : Int) := by
  obtain ⟨hlow, hhigh⟩ := toDigits_bounds h
  have hlength : 1 ≤ decimalLength n := List.length_pos_iff.mpr (toDigits_ne_nil n)
  have hpred : (decimalLength n : Int) - 1 = (decimalLength n - 1 : Nat) := by omega
  rw [hpred, zpow_natCast, zpow_natCast]
  exact ⟨by exact_mod_cast hlow, by exact_mod_cast hhigh⟩

/-- Finite doubles are below `10 ^ 309` and, except for zero, not below `10 ^ (-324)`. -/
theorem Covers.decimal_bounds (hx : x.Plain) (hpos : 0 < x.significand) (h : x.Covers v) :
    (10 : ℚ) ^ (-324 : Int) ≤ v ∧ v < 10 ^ (309 : Int) := by
  have hleast := x.leastExponent_le
  rw [leastExponent] at hleast
  have hgreatest := hx.exponent_le
  constructor
  · have hlow : (1 : ℚ) ≤ x.lowQuarters := by
      have := x.lowQuarters_ge
      exact_mod_cast (by omega : 1 ≤ x.lowQuarters)
    have hpowers : (2 : ℚ) ^ 1076 ≤ 10 ^ 324 := by
      exact_mod_cast (by decide +kernel : 2 ^ 1076 ≤ 10 ^ 324)
    calc (10 : ℚ) ^ (-324 : Int) ≤ 2 ^ (-1076 : Int) := inv_anti₀ (pow_pos (by norm_num) 1076) hpowers
      _ ≤ 2 ^ (x.exponent - 2) := zpow_le_zpow_right₀ (by norm_num) (by omega)
      _ ≤ x.lowQuarters * 2 ^ (x.exponent - 2) := le_mul_of_one_le_left (two_zpow_pos _).le hlow
      _ ≤ v := h.low
  · have hpowers : (2 : ℚ) ^ 1024 ≤ 10 ^ 309 := by
      exact_mod_cast (by decide +kernel : 2 ^ 1024 ≤ 10 ^ 309)
    calc v < 2 ^ (x.exponent + 53) := h.lt
      _ ≤ 2 ^ (1024 : Int) := zpow_le_zpow_right₀ (by norm_num) (by omega)
      _ ≤ 10 ^ (309 : Int) := hpowers

/-- **A decimal between the midpoints around a double is read as the double.** -/
theorem ofDecimal_eq {digits : Nat} {exponent : Int} (hx : x.Plain) (hpos : 0 < x.significand)
    (h : x.Covers (digits * 10 ^ exponent)) : ofDecimal digits exponent = x := by
  have hdigits : 0 < digits := by
    rcases Nat.eq_zero_or_pos digits with rfl | hdigits
    · have hpositive := h.positive hpos
      rw [Nat.cast_zero, zero_mul] at hpositive
      exact absurd hpositive (lt_irrefl 0)
    · exact hdigits
  obtain ⟨hleast, hgreatest⟩ := h.decimal_bounds hx hpos
  obtain ⟨hlow, hhigh⟩ := decimalLength_bounds hdigits
  have hbelow : exponent + decimalLength digits - 1 < 309 := by
    refine ten_zpow_lt_iff.mp (lt_of_le_of_lt ?_ hgreatest)
    rw [add_sub_assoc, add_comm, zpow_add₀ (by norm_num)]
    exact mul_le_mul_of_nonneg_right hlow (ten_zpow_pos _).le
  have habove : -324 < exponent + decimalLength digits := by
    refine ten_zpow_lt_iff.mp (lt_of_le_of_lt hleast ?_)
    rw [add_comm, zpow_add₀ (by norm_num)]
    exact mul_lt_mul_of_pos_right hhigh (ten_zpow_pos _)
  unfold ofDecimal
  simp only
  rw [if_neg hdigits.ne', if_neg (by omega), if_neg (by omega)]
  split
  · rename_i hexponent
    refine ofRatio_eq hx hpos Nat.one_pos ?_
    rwa [Nat.cast_mul, cast_tenTo, pow_toNat hexponent, Nat.cast_one, div_one]
  · rename_i hexponent
    refine ofRatio_eq hx hpos (Nat.pow_pos (by decide)) ?_
    rwa [cast_tenTo, pow_toNat (by omega), zpow_neg, div_inv_eq_mul]

end Double

end Offside.Number
