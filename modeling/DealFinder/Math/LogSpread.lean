/-
# The logarithmic spread of two numbers

`(c - r) * log (c / r)` compares two positive numbers. It is symmetric, it is never negative, and it
grows as one of them moves away from the other, on either side. Clipping from below keeps an order
of three numbers, so it does not turn a move away into a move back (`spread_clip_le`).
-/

import Mathlib.Analysis.SpecialFunctions.Log.Basic

noncomputable section

namespace DealFinder.Math

/-- The spread of two numbers. -/
def spread (r c : ℝ) : ℝ := (c - r) * Real.log (c / r)

variable {r c d : ℝ}

theorem spread_self (r : ℝ) : spread r r = 0 := by
  rw [spread, sub_self, zero_mul]

theorem spread_comm (r c : ℝ) : spread r c = spread c r := by
  have hlog : Real.log (r / c) = -Real.log (c / r) := by
    rw [← Real.log_inv, inv_div]
  rw [spread, spread, hlog]
  ring

/-- Above the reference the spread grows. -/
theorem spread_le_of_ge (hr : 0 < r) (hc : r ≤ c) (hd : c ≤ d) : spread r c ≤ spread r d := by
  have hlow : 0 ≤ Real.log (c / r) := Real.log_nonneg ((one_le_div hr).2 hc)
  have hratio : 0 < c / r := div_pos (hr.trans_le hc) hr
  have hlog : Real.log (c / r) ≤ Real.log (d / r) :=
    Real.log_le_log hratio (div_le_div_of_nonneg_right hd hr.le)
  exact mul_le_mul (by linarith) hlog hlow (by linarith)

/-- Below the reference it grows as well. -/
theorem spread_le_of_le (hd : 0 < d) (hc : d ≤ c) (hr : c ≤ r) : spread r c ≤ spread r d := by
  have hcpos : 0 < c := hd.trans_le hc
  have hrpos : 0 < r := hcpos.trans_le hr
  have hhigh : Real.log (c / r) ≤ 0 :=
    Real.log_nonpos (div_pos hcpos hrpos).le ((div_le_one hrpos).2 hr)
  have hlog : Real.log (d / r) ≤ Real.log (c / r) :=
    Real.log_le_log (div_pos hd hrpos) (div_le_div_of_nonneg_right hc hrpos.le)
  have hproduct : (r - c) * -Real.log (c / r) ≤ (r - d) * -Real.log (d / r) :=
    mul_le_mul (by linarith) (by linarith) (by linarith) (by linarith)
  calc spread r c = (r - c) * -Real.log (c / r) := by rw [spread]; ring
    _ ≤ (r - d) * -Real.log (d / r) := hproduct
    _ = spread r d := by rw [spread]; ring

/-- The one number lies between the two others. -/
def Between (x y z : ℝ) : Prop := (x ≤ y ∧ y ≤ z) ∨ (z ≤ y ∧ y ≤ x)

/-- The spread grows as a number moves away, clipped or not. -/
theorem spread_clip_le {ε x y z : ℝ} (hε : 0 < ε) (h : Between x y z) :
    spread (max x ε) (max y ε) ≤ spread (max x ε) (max z ε) := by
  have hpos : ∀ w, 0 < max w ε := fun w => hε.trans_le (le_max_right w ε)
  rcases h with ⟨hxy, hyz⟩ | ⟨hzy, hyx⟩
  · exact spread_le_of_ge (hpos x) (max_le_max_right ε hxy) (max_le_max_right ε hyz)
  · exact spread_le_of_le (hpos z) (max_le_max_right ε hzy) (max_le_max_right ε hyx)

/-- A spread of positive numbers is not negative. -/
theorem spread_nonneg (hr : 0 < r) (hc : 0 < c) : 0 ≤ spread r c := by
  rw [← spread_self r]
  rcases le_total r c with hle | hle
  · exact spread_le_of_ge hr le_rfl hle
  · exact spread_le_of_le hc hle le_rfl

/-- A number that moves on a line moves away from where it started. -/
theorem between_of_line (x slope : ℝ) {f g : ℝ} (hf : 0 ≤ f) (hfg : f ≤ g) :
    Between x (x + f * slope) (x + g * slope) := by
  rcases le_total 0 slope with hup | hdown
  · left
    exact ⟨by nlinarith, by nlinarith⟩
  · right
    exact ⟨by nlinarith, by nlinarith⟩

end DealFinder.Math

end
