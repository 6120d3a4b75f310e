/-
# Rounded figures

Rounding half to even keeps the order, keeps integers, and moves a number by a half at
most, so a comparison of rounded figures says something of the figures themselves.
-/

import DealFinder.Shop.Product
import Mathlib.Tactic.Linarith
import Mathlib.Tactic.NormNum

namespace DealFinder.Shop

theorem floor_le_roundHalfEven (x : ℚ) : ⌊x⌋ ≤ roundHalfEven x := by
  unfold roundHalfEven
  split_ifs <;> omega

theorem roundHalfEven_le_floor_add_one (x : ℚ) : roundHalfEven x ≤ ⌊x⌋ + 1 := by
  unfold roundHalfEven
  split_ifs <;> omega

theorem roundHalfEven_mono {x y : ℚ} (h : x ≤ y) : roundHalfEven x ≤ roundHalfEven y := by
  rcases (Int.floor_mono h).lt_or_eq with hlt | heq
  · have hx := roundHalfEven_le_floor_add_one x
    have hy := floor_le_roundHalfEven y
    omega
  · -- With one floor, the larger number is not rounded down where the smaller is not.
    unfold roundHalfEven
    rw [heq]
    split_ifs <;> first | omega | (exfalso; linarith)

@[simp]
theorem roundHalfEven_intCast (n : ℤ) : roundHalfEven (n : ℚ) = n := by
  rw [roundHalfEven, Int.floor_intCast, sub_self, if_pos (by norm_num)]

/-- What rounds to more than zero is more than a half. -/
theorem roundHalfEven_pos_iff (x : ℚ) : 0 < roundHalfEven x ↔ 1 / 2 < x := by
  constructor
  · intro h
    by_contra hle
    have hhalf : roundHalfEven (1 / 2) = 0 := by decide +kernel
    have hround := roundHalfEven_mono (not_lt.1 hle)
    omega
  · intro h
    have hfloor : 0 ≤ ⌊x⌋ := Int.floor_nonneg.2 (by linarith)
    rcases hfloor.lt_or_eq with hpos | hzero
    · exact hpos.trans_le (floor_le_roundHalfEven x)
    · have hfraction : 1 / 2 < x - ⌊x⌋ := by
        rw [← hzero, Int.cast_zero, sub_zero]
        exact h
      rw [roundHalfEven, if_neg (not_lt.2 hfraction.le), if_pos hfraction]
      omega

/-- Rounding moves a number by a half at most. -/
theorem abs_sub_roundHalfEven_le (x : ℚ) : |x - roundHalfEven x| ≤ 1 / 2 := by
  have hlow := Int.floor_le x
  have hhigh := Int.lt_floor_add_one x
  rw [abs_le]
  unfold roundHalfEven
  split_ifs <;> push_cast <;> constructor <;> linarith

theorem roundTo_mono (digits : ℕ) {x y : ℚ} (h : x ≤ y) : roundTo digits x ≤ roundTo digits y := by
  unfold roundTo
  have hpos : (0 : ℚ) < 10 ^ digits := by positivity
  have hround := roundHalfEven_mono (mul_le_mul_of_nonneg_right h hpos.le)
  exact div_le_div_of_nonneg_right (Int.cast_le.2 hround) hpos.le

theorem roundTo_pos_iff (digits : ℕ) (x : ℚ) :
    0 < roundTo digits x ↔ 1 / 2 < x * 10 ^ digits := by
  have hpos : (0 : ℚ) < 10 ^ digits := by positivity
  rw [roundTo, div_pos_iff_of_pos_right hpos, Int.cast_pos, roundHalfEven_pos_iff]

/-- A figure that has no more digits than it is rounded to stays as it is. -/
theorem roundTo_of_eq {digits : ℕ} {x : ℚ} {n : ℤ} (h : x * 10 ^ digits = n) :
    roundTo digits x = x := by
  have hpos : (10 : ℚ) ^ digits ≠ 0 := by positivity
  rw [roundTo, h, roundHalfEven_intCast, ← h, mul_div_cancel_right₀ x hpos]

end DealFinder.Shop
