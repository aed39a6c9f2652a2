import Mathlib.Data.Int.Log
import Mathlib.Data.Rat.Floor

/-!
# numpy's `int64` and `float64` scalars

`np.asarray(..., dtype=np.int)` casts to `int64`, arithmetic on its elements wraps, and `/` of
two of them is a `float64` division: both operands are rounded to binary64 and so is the exact
quotient. Values are exact rationals; `float64` rounds to nearest, ties to even, with the
binary64 exponent range from below and no overflow, since every value here is below `2 ^ 64`.
-/

namespace Feagi.Vision

/-- An `int64` result: `v` wrapped into `[-2 ^ 63, 2 ^ 63)`. -/
def wrapInt64 (v : Int) : Int := (v + 2 ^ 63) % 2 ^ 64 - 2 ^ 63

/-- The integer nearest to `q`, ties to the even one. -/
def roundHalfEven (q : ℚ) : Int :=
  if q - ⌊q⌋ < 1 / 2 then ⌊q⌋
  else if 1 / 2 < q - ⌊q⌋ then ⌊q⌋ + 1
  else if ⌊q⌋ % 2 = 0 then ⌊q⌋ else ⌊q⌋ + 1

/-- The exponent of the last significand bit of a binary64 value near `q`. -/
def ulpExponent (q : ℚ) : Int := max (Int.log 2 |q| - 52) (-1074)

/-- The binary64 value nearest to `q`, ties to even. -/
def float64 (q : ℚ) : ℚ :=
  roundHalfEven (q / 2 ^ ulpExponent q) * 2 ^ ulpExponent q

/-- A float cast to `np.int` (`int64`): truncation toward zero; a value out of range becomes
`-2 ^ 63`, as the x86-64 conversion gives. -/
def npInt (v : ℚ) : Int :=
  let truncated := if v < 0 then ⌈v⌉ else ⌊v⌋
  if -2 ^ 63 ≤ truncated ∧ truncated < 2 ^ 63 then truncated else -2 ^ 63

theorem wrapInt64_of_lt {v : Int} (low : -2 ^ 63 ≤ v) (high : v < 2 ^ 63) : wrapInt64 v = v := by
  rw [wrapInt64, Int.emod_eq_of_lt (by omega) (by omega)]
  omega

theorem npInt_of_nonneg {v : ℚ} (nonneg : 0 ≤ v) (high : ⌊v⌋ < 2 ^ 63) : npInt v = ⌊v⌋ := by
  have low : -2 ^ 63 ≤ ⌊v⌋ := (by norm_num : (-2 ^ 63 : Int) ≤ 0).trans (Int.floor_nonneg.mpr nonneg)
  rw [npInt, if_neg (not_lt.mpr nonneg), if_pos ⟨low, high⟩]

/-! ## Rounding -/

theorem floor_le_roundHalfEven (q : ℚ) : ⌊q⌋ ≤ roundHalfEven q := by
  unfold roundHalfEven
  split_ifs <;> omega

theorem roundHalfEven_le (q : ℚ) : (roundHalfEven q : ℚ) ≤ q + 1 / 2 := by
  have below := Int.floor_le q
  unfold roundHalfEven
  split_ifs with near far <;> push_cast <;> linarith

@[simp] theorem roundHalfEven_intCast (k : Int) : roundHalfEven k = k := by
  simp [roundHalfEven]

theorem two_zpow_of_nonpos {e : Int} (nonpos : e ≤ 0) :
    (2 : ℚ) ^ e = ((2 : ℚ) ^ (-e).toNat)⁻¹ := by
  rw [← zpow_natCast, Int.toNat_of_nonneg (by omega), zpow_neg, inv_inv]

theorem ulpExponent_le {q : ℚ} {top : Int} (positive : 0 < q) (below : q < 2 ^ (top + 1)) :
    ulpExponent q ≤ max (top - 52) (-1074) := by
  have log : Int.log 2 q ≤ top :=
    Int.lt_add_one_iff.mp ((Int.lt_zpow_iff_log_lt (by norm_num) positive).mp (by exact_mod_cast below))
  unfold ulpExponent
  rw [abs_of_pos positive]
  omega

theorem float64_intCast {n : Int} (small : n.natAbs < 2 ^ 53) : float64 n = n := by
  have exponent : ulpExponent n ≤ 0 := by
    rcases eq_or_ne n 0 with rfl | nonzero
    · simp [ulpExponent]
    · have positive : (0 : ℚ) < |(n : ℚ)| := abs_pos.mpr (by exact_mod_cast nonzero)
      have below : |(n : ℚ)| < 2 ^ ((52 : Int) + 1) := by
        rw [← Int.cast_abs, Int.abs_eq_natAbs]
        exact_mod_cast small
      have := ulpExponent_le positive below
      rw [ulpExponent, abs_abs] at this
      unfold ulpExponent
      omega
  have power : (2 : ℚ) ^ ulpExponent n ≠ 0 := zpow_ne_zero _ two_ne_zero
  have scaled : (n : ℚ) / 2 ^ ulpExponent n = ((n * 2 ^ (-ulpExponent n).toNat : Int) : ℚ) := by
    rw [two_zpow_of_nonpos exponent]
    push_cast
    rw [div_inv_eq_mul]
  rw [float64, scaled, roundHalfEven_intCast, ← scaled, div_mul_cancel₀ _ power]

/-- The floor of the rounded quotient of two integers is the floor of the exact one, when the
quotient is at most `255` and the divisor is below `2 ^ 44`: the rounding error, at most half a
unit of `2 ^ -45`, stays below the distance `1 / b` to the next integer. -/
theorem floor_float64_div {a b : Int} (nonneg : 0 ≤ a) (le : a ≤ 255 * b) (positive : 0 < b)
    (bound : b < 2 ^ 44) : ⌊float64 ((a : ℚ) / b)⌋ = a / b := by
  have b_pos : (0 : ℚ) < b := by exact_mod_cast positive
  have below : b * (a / b) ≤ a := Int.mul_ediv_self_le positive.ne'
  have above : a + 1 ≤ b * (a / b + 1) := by
    have := Int.lt_mul_ediv_self_add (x := a) positive
    rw [Int.mul_add, Int.mul_one]
    omega
  rcases eq_or_lt_of_le nonneg with rfl | a_pos
  · have zero := float64_intCast (n := 0) (by norm_num)
    rw [Int.cast_zero] at zero
    simp [zero]
  set q : ℚ := (a : ℚ) / b with q_def
  have q_pos : 0 < q := div_pos (by exact_mod_cast a_pos) b_pos
  have q_below : q < 2 ^ ((7 : Int) + 1) := by
    rw [q_def, div_lt_iff₀ b_pos]
    have : (a : ℚ) ≤ 255 * b := by exact_mod_cast le
    norm_num
    linarith
  have exponent : ulpExponent q ≤ -45 := by
    have := ulpExponent_le q_pos q_below
    omega
  have power_pos : (0 : ℚ) < 2 ^ ulpExponent q := zpow_pos two_pos _
  have floor_q : (((a / b : Int) : ℚ)) ≤ q := by
    rw [q_def, le_div_iff₀ b_pos]
    exact_mod_cast (mul_comm (a / b) b ▸ below)
  have gap : q + 1 / b ≤ ((a / b : Int) : ℚ) + 1 := by
    rw [q_def, div_add_div_same, div_le_iff₀ b_pos]
    exact_mod_cast (by rw [mul_comm]; exact above : a + 1 ≤ (a / b + 1) * b)
  rw [Int.floor_eq_iff]
  constructor
  · -- `a / b` scaled by `2 ^ -e` is an integer at most `q / 2 ^ e`, so rounding keeps it.
    have scaled : ((a / b : Int) : ℚ) / 2 ^ ulpExponent q =
        (((a / b) * 2 ^ (-ulpExponent q).toNat : Int) : ℚ) := by
      rw [two_zpow_of_nonpos (by omega)]
      push_cast
      rw [div_inv_eq_mul]
    have kept : (a / b) * 2 ^ (-ulpExponent q).toNat ≤ roundHalfEven (q / 2 ^ ulpExponent q) :=
      (Int.le_floor.mpr (by rw [← scaled]; exact div_le_div_of_nonneg_right floor_q power_pos.le)).trans
        (floor_le_roundHalfEven _)
    calc ((a / b : Int) : ℚ) = (((a / b) * 2 ^ (-ulpExponent q).toNat : Int) : ℚ) * 2 ^ ulpExponent q := by
          rw [← scaled, div_mul_cancel₀ _ power_pos.ne']
      _ ≤ float64 q := by
          rw [float64]
          exact mul_le_mul_of_nonneg_right (by exact_mod_cast kept) power_pos.le
  · -- The rounding error is at most `2 ^ e / 2 ≤ 2 ^ -46`, below `1 / b`.
    have half_ulp : (2 : ℚ) ^ ulpExponent q / 2 < 1 / b := by
      calc (2 : ℚ) ^ ulpExponent q / 2 ≤ 2 ^ (-45 : Int) / 2 :=
            div_le_div_of_nonneg_right (zpow_le_zpow_right₀ (by norm_num) exponent) (by norm_num)
          _ < 1 / 2 ^ (44 : Nat) := by norm_num
          _ < 1 / b := one_div_lt_one_div_of_lt b_pos (by exact_mod_cast bound)
    calc float64 q ≤ (q / 2 ^ ulpExponent q + 1 / 2) * 2 ^ ulpExponent q := by
          rw [float64]
          exact mul_le_mul_of_nonneg_right (roundHalfEven_le _) power_pos.le
      _ = q + 2 ^ ulpExponent q / 2 := by
          rw [add_mul, div_mul_cancel₀ _ power_pos.ne']
          ring
      _ < q + 1 / b := by linarith
      _ ≤ ((a / b : Int) : ℚ) + 1 := gap

end Feagi.Vision
