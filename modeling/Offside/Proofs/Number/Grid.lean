import Offside.Proofs.Number.Rounding

/-! The decimal that a double is written with.

Every point that a grid offers lies between the midpoints around the double (`gridPoint_covers`), and the
grids get fine enough for one to be found before the walk ends (`firstGridPoint_finds`). So the decimal
that is written is read back: `Double.shortest_covers`. -/
namespace Offside.Number.Double

variable {x : Double} {k : Int} {n : Nat}

/-- A quarter of the last place and the step of a grid, both as multiples of a common part. -/
def quarterParts (x : Double) (k : Int) : Nat := twoTo (x.exponent - 2).toNat * tenTo (-k).toNat

def stepParts (x : Double) (k : Int) : Nat := twoTo (-(x.exponent - 2)).toNat * tenTo k.toNat

theorem zpow_mul_pow {a : ℚ} (ha : a ≠ 0) (e : Int) : a ^ e * a ^ (-e).toNat = a ^ e.toNat := by
  rw [← zpow_natCast, ← zpow_natCast, ← zpow_add₀ ha]
  congr 1
  omega

theorem exists_part (x : Double) (k : Int) : ∃ part : ℚ, 0 < part ∧
    (x.quarterParts k : ℚ) = 2 ^ (x.exponent - 2) * part ∧ (x.stepParts k : ℚ) = 10 ^ k * part := by
  refine ⟨2 ^ (-(x.exponent - 2)).toNat * 10 ^ (-k).toNat, by positivity, ?_, ?_⟩
  · rw [quarterParts, Nat.cast_mul, cast_twoTo, cast_tenTo, ← mul_assoc, zpow_mul_pow (by norm_num)]
  · rw [stepParts, Nat.cast_mul, cast_twoTo, cast_tenTo, mul_left_comm, zpow_mul_pow (by norm_num)]

theorem quarterParts_pos (x : Double) (k : Int) : 0 < x.quarterParts k :=
  Nat.mul_pos (Nat.pow_pos (by decide)) (Nat.pow_pos (by decide))

theorem stepParts_pos (x : Double) (k : Int) : 0 < x.stepParts k :=
  Nat.mul_pos (Nat.pow_pos (by decide)) (Nat.pow_pos (by decide))

/-- Bounds that are found in whole numbers. -/
theorem covers_of_parts (hlow : x.lowQuarters * x.quarterParts k ≤ n * x.stepParts k)
    (hhigh : n * x.stepParts k ≤ x.highQuarters * x.quarterParts k)
    (hodd : x.significand % 2 = 1 → x.lowQuarters * x.quarterParts k < n * x.stepParts k ∧
      n * x.stepParts k < x.highQuarters * x.quarterParts k) : x.Covers (n * 10 ^ k) := by
  obtain ⟨part, hpart, hquarter, hstep⟩ := exists_part x k
  have hquarters (a : Nat) : (a : ℚ) * 2 ^ (x.exponent - 2) * part = (a * x.quarterParts k : Nat) := by
    rw [Nat.cast_mul, hquarter, mul_assoc]
  have hsteps : (n : ℚ) * 10 ^ k * part = (n * x.stepParts k : Nat) := by
    rw [Nat.cast_mul, hstep, mul_assoc]
  refine ⟨le_of_mul_le_mul_right ?_ hpart, le_of_mul_le_mul_right ?_ hpart, fun hm =>
    ⟨lt_of_mul_lt_mul_right ?_ hpart.le, lt_of_mul_lt_mul_right ?_ hpart.le⟩⟩
  · rw [hquarters, hsteps]
    exact_mod_cast hlow
  · rw [hquarters, hsteps]
    exact_mod_cast hhigh
  · rw [hquarters, hsteps]
    exact_mod_cast (hodd hm).1
  · rw [hquarters, hsteps]
    exact_mod_cast (hodd hm).2

theorem lowQuarters_lt (hpos : 0 < x.significand) : x.lowQuarters < 4 * x.significand := by
  unfold lowQuarters
  simp only
  split <;> omega

/-- The choice between the point below the value and the next one. -/
theorem gridPoint_eq (x : Double) (k : Int) {value a : Nat}
    (hvalue : value = 4 * x.significand * x.quarterParts k) (ha : a = value / x.stepParts k) : x.gridPoint k =
      let closed := x.significand % 2 == 0
      let downFits := x.lowQuarters * x.quarterParts k < a * x.stepParts k ||
        (closed && x.lowQuarters * x.quarterParts k == a * x.stepParts k)
      let upFits := (a + 1) * x.stepParts k < x.highQuarters * x.quarterParts k ||
        (closed && (a + 1) * x.stepParts k == x.highQuarters * x.quarterParts k)
      if upFits && (!downFits || 2 * (value % x.stepParts k) ≥ x.stepParts k) then some (a + 1)
      else if downFits then some a
      else none := by
  subst ha hvalue
  rfl

/-- Points of a grid that are offered lie between the midpoints. -/
theorem gridPoint_covers (hpos : 0 < x.significand) (h : x.gridPoint k = some n) : x.Covers (n * 10 ^ k) := by
  obtain ⟨value, hvalue⟩ : ∃ value, value = 4 * x.significand * x.quarterParts k := ⟨_, rfl⟩
  obtain ⟨a, ha⟩ : ∃ a, a = value / x.stepParts k := ⟨_, rfl⟩
  have hlow : x.lowQuarters * x.quarterParts k < value :=
    hvalue ▸ Nat.mul_lt_mul_of_pos_right (lowQuarters_lt hpos) (x.quarterParts_pos k)
  have hhigh : value < x.highQuarters * x.quarterParts k :=
    hvalue ▸ Nat.mul_lt_mul_of_pos_right (by rw [highQuarters]; omega) (x.quarterParts_pos k)
  have hdown : a * x.stepParts k ≤ value := ha ▸ Nat.div_mul_le_self _ _
  have hup : value < (a + 1) * x.stepParts k := by
    rw [ha, mul_comm]
    exact Nat.lt_mul_div_succ _ (x.stepParts_pos k)
  rw [gridPoint_eq x k hvalue ha] at h
  simp only at h
  split at h
  · rename_i hchoice
    cases h
    simp only [Bool.and_eq_true, Bool.or_eq_true, decide_eq_true_eq, beq_iff_eq] at hchoice
    exact covers_of_parts (by omega) (by omega) (by omega)
  · split at h
    · rename_i hfits
      cases h
      simp only [Bool.and_eq_true, Bool.or_eq_true, decide_eq_true_eq, beq_iff_eq] at hfits
      exact covers_of_parts (by omega) (by omega) (by omega)
    · cases h

/-- A grid with steps of at most a quarter of the last place has a point to offer. -/
theorem gridPoint_isSome (hpos : 0 < x.significand) (hstep : x.stepParts k ≤ x.quarterParts k) :
    (x.gridPoint k).isSome = true := by
  obtain ⟨value, hvalue⟩ : ∃ value, value = 4 * x.significand * x.quarterParts k := ⟨_, rfl⟩
  obtain ⟨a, ha⟩ : ∃ a, a = value / x.stepParts k := ⟨_, rfl⟩
  have hlow : x.lowQuarters * x.quarterParts k + x.quarterParts k ≤ value := by
    rw [hvalue, ← Nat.succ_mul]
    exact Nat.mul_le_mul_right _ (lowQuarters_lt hpos)
  have hup : value < a * x.stepParts k + x.stepParts k := by
    rw [ha]
    exact Nat.lt_div_mul_add (x.stepParts_pos k)
  have hfits : x.lowQuarters * x.quarterParts k < a * x.stepParts k := by omega
  rw [gridPoint_eq x k hvalue ha]
  simp only [hfits, decide_true, Bool.true_or, if_true]
  split <;> rfl

/-- The walk ends at a point if some grid on its way has one. -/
theorem firstGridPoint_finds {fuel : Nat} {j : Nat} (hj : j < fuel) (h : (x.gridPoint (k - j)).isSome = true) :
    x.gridPoint (x.firstGridPoint fuel k).2 = some (x.firstGridPoint fuel k).1 := by
  induction fuel generalizing k j with
  | zero => omega
  | succ fuel ih =>
    rw [firstGridPoint]
    cases hpoint : x.gridPoint k with
    | some n => exact hpoint
    | none =>
      cases j with
      | zero =>
        rw [Nat.cast_zero, sub_zero, hpoint] at h
        cases h
      | succ j =>
        refine ih (j := j) (by omega) ?_
        rwa [sub_sub, add_comm, ← Nat.cast_succ]

/-! ### How fine the grids get -/

/-- Three powers of ten are less than ten powers of two. -/
theorem ten_zpow_le_of_nonneg {j t : Int} (hj : 0 ≤ j) (h : 10 * j ≤ 3 * t) : (10 : ℚ) ^ j ≤ 2 ^ t := by
  obtain ⟨i, rfl⟩ := Int.eq_ofNat_of_zero_le hj
  obtain ⟨u, rfl⟩ := Int.eq_ofNat_of_zero_le (by omega : 0 ≤ t)
  have hcubes : (10 ^ i) ^ 3 ≤ (2 ^ u) ^ 3 := by
    calc (10 ^ i) ^ 3 = (10 ^ 3) ^ i := by rw [← pow_mul, ← pow_mul, mul_comm]
      _ ≤ (2 ^ 10) ^ i := Nat.pow_le_pow_left (by norm_num) i
      _ = 2 ^ (10 * i) := (pow_mul 2 10 i).symm
      _ ≤ 2 ^ (u * 3) := Nat.pow_le_pow_right (by norm_num) (by omega)
      _ = (2 ^ u) ^ 3 := pow_mul 2 u 3
  have hle : 10 ^ i ≤ 2 ^ u := (Nat.pow_le_pow_iff_left (by norm_num)).mp hcubes
  exact_mod_cast hle

/-- A power of ten is more than three powers of two. -/
theorem ten_zpow_le_of_neg {j t : Int} (hj : j < 0) (h : 3 * j ≤ t) : (10 : ℚ) ^ j ≤ 2 ^ t := by
  obtain ⟨i, hi⟩ := Int.eq_ofNat_of_zero_le (by omega : 0 ≤ -j)
  obtain rfl : j = -(i : Int) := by omega
  calc (10 : ℚ) ^ (-(i : Int)) = (10 ^ i)⁻¹ := by rw [zpow_neg, zpow_natCast]
    _ ≤ (8 ^ i)⁻¹ := inv_anti₀ (by positivity) (pow_le_pow_left₀ (by norm_num) (by norm_num) i)
    _ = 2 ^ (3 * -(i : Int)) := by
      rw [zpow_mul, zpow_neg, zpow_natCast]
      norm_num
    _ ≤ 2 ^ t := zpow_le_zpow_right₀ (by norm_num) h

/-- The last grid of the walk is fine enough. -/
theorem last_grid_fine (hx : x.Plain) (hpos : 0 < x.significand) :
    (10 : ℚ) ^ (x.aboveExponent - 63) ≤ 2 ^ (x.exponent - 2) := by
  have hlog : x.significand.log2 < 53 := (Nat.log2_lt hpos.ne').mpr x.significand_lt
  have hleast := x.leastExponent_le
  rw [leastExponent] at hleast
  have hgreatest := hx.exponent_le
  have hbounds : (0 ≤ x.aboveExponent - 63 → 10 * (x.aboveExponent - 63) ≤ 3 * (x.exponent - 2)) ∧
      (x.aboveExponent - 63 < 0 → 3 * (x.aboveExponent - 63) ≤ x.exponent - 2) := by
    unfold aboveExponent
    simp only
    split <;> omega
  rcases lt_or_ge (x.aboveExponent - 63) 0 with hneg | hnonneg
  · exact ten_zpow_le_of_neg hneg (hbounds.2 hneg)
  · exact ten_zpow_le_of_nonneg hnonneg (hbounds.1 hnonneg)

theorem shortest_covers (hx : x.Plain) (hpos : 0 < x.significand) : x.Covers (x.shortest.1 * 10 ^ x.shortest.2) := by
  refine gridPoint_covers hpos (firstGridPoint_finds (j := 63) (by decide) (gridPoint_isSome hpos ?_))
  obtain ⟨part, hpart, hquarter, hstep⟩ := exists_part x (x.aboveExponent - (63 : Nat))
  rw [← Nat.cast_le (α := ℚ), hquarter, hstep]
  exact mul_le_mul_of_nonneg_right (last_grid_fine hx hpos) hpart.le

end Offside.Number.Double
