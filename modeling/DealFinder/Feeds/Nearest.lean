/-
# Which numbers are floats

A float is a whole multiple of the distance of the doubles around it. So the nearest double of a
number is a float, which is its own nearest double (`isFloat_nearest`), and a finite float is a
fraction over a power of two (`IsFloat.exists_pow`).
-/

import DealFinder.Feeds.Float
import Mathlib.Algebra.Order.Field.Power
import Mathlib.Data.Nat.Log
import Mathlib.Data.Rat.Lemmas
import Mathlib.Tactic.FieldSimp
import Mathlib.Tactic.Positivity
import Mathlib.Tactic.Ring

namespace DealFinder.Feeds

open DealFinder.Shop

namespace Double

/-- A value that a float can have. -/
def IsFloat : Double → Prop
  | finite x => nearest x = finite x
  | _ => True

instance (x : Double) : Decidable x.IsFloat :=
  match x with
  | nan => inferInstanceAs (Decidable True)
  | inf _ => inferInstanceAs (Decidable True)
  | finite x => inferInstanceAs (Decidable (nearest x = finite x))

/-- The exponent of `spacing`. -/
def grid (x : ℚ) : ℤ := max (exponent x - 52) (-1074)

theorem spacing_eq (x : ℚ) : spacing x = 2 ^ grid x := rfl

theorem spacing_pos (x : ℚ) : 0 < spacing x := zpow_pos two_pos _

theorem abs_eq_div (x : ℚ) : |x| = (x.num.natAbs : ℚ) / x.den := by
  have hnum : ((x.num.natAbs : ℕ) : ℚ) = |(x.num : ℚ)| := by
    rw [← Int.cast_abs, Int.abs_eq_natAbs, Int.cast_natCast]
  rw [hnum]
  conv_lhs => rw [← Rat.num_div_den x]
  rw [abs_div, Nat.abs_cast]

/-- The exponent of a number bounds it on both sides. -/
theorem exponent_spec {x : ℚ} (hx : x ≠ 0) :
    (2 : ℚ) ^ exponent x ≤ |x| ∧ |x| < 2 ^ (exponent x + 1) := by
  have hnum : x.num.natAbs ≠ 0 := Int.natAbs_ne_zero.2 (Rat.num_ne_zero.2 hx)
  have hden : (0 : ℚ) < x.den := Nat.cast_pos.2 x.den_pos
  have hnumLow : (2 : ℚ) ^ (Nat.log2 x.num.natAbs) ≤ x.num.natAbs := by
    exact_mod_cast Nat.log2_self_le hnum
  have hnumHigh : (x.num.natAbs : ℚ) < 2 ^ (Nat.log2 x.num.natAbs + 1) := by
    exact_mod_cast Nat.lt_log2_self
  have hdenLow : (2 : ℚ) ^ (Nat.log2 x.den) ≤ x.den := by
    exact_mod_cast Nat.log2_self_le x.den_ne_zero
  have hdenHigh : (x.den : ℚ) < 2 ^ (Nat.log2 x.den + 1) := by
    exact_mod_cast Nat.lt_log2_self
  generalize hn : Nat.log2 x.num.natAbs = a at *
  generalize hd : Nat.log2 x.den = b at *
  have hpos : ∀ n : ℕ, (0 : ℚ) < 2 ^ n := fun n => by positivity
  have hhigh : |x| < 2 ^ ((a : ℤ) - b + 1) := by
    have hsplit : (2 : ℚ) ^ ((a : ℤ) - b + 1) = 2 ^ (a + 1) / 2 ^ b := by
      rw [show (a : ℤ) - b + 1 = ((a + 1 : ℕ) : ℤ) - (b : ℕ) by push_cast; ring,
        zpow_sub₀ two_ne_zero, zpow_natCast, zpow_natCast]
    rw [abs_eq_div, hsplit, div_lt_div_iff₀ hden (hpos b)]
    calc (x.num.natAbs : ℚ) * 2 ^ b < 2 ^ (a + 1) * 2 ^ b :=
          mul_lt_mul_of_pos_right hnumHigh (hpos b)
      _ ≤ 2 ^ (a + 1) * x.den := mul_le_mul_of_nonneg_left hdenLow (hpos _).le
  have hlow : (2 : ℚ) ^ ((a : ℤ) - b - 1) ≤ |x| := by
    have hsplit : (2 : ℚ) ^ ((a : ℤ) - b - 1) = 2 ^ a / 2 ^ (b + 1) := by
      rw [show (a : ℤ) - b - 1 = ((a : ℕ) : ℤ) - ((b + 1 : ℕ) : ℤ) by push_cast; ring,
        zpow_sub₀ two_ne_zero, zpow_natCast, zpow_natCast]
    rw [abs_eq_div, hsplit, div_le_div_iff₀ (hpos _) hden]
    calc (2 : ℚ) ^ a * x.den ≤ 2 ^ a * 2 ^ (b + 1) :=
          mul_le_mul_of_nonneg_left hdenHigh.le (hpos a).le
      _ ≤ x.num.natAbs * 2 ^ (b + 1) := mul_le_mul_of_nonneg_right hnumLow (hpos _).le
  have hexponent : exponent x = if (2 : ℚ) ^ ((a : ℤ) - b) ≤ |x| then (a : ℤ) - b
      else (a : ℤ) - b - 1 := by
    rw [← hn, ← hd]
    rfl
  rw [hexponent]
  split_ifs with hle
  · exact ⟨hle, hhigh⟩
  · refine ⟨hlow, ?_⟩
    rw [sub_add_cancel]
    exact not_le.1 hle

theorem exponent_le_of_le_pow {x : ℚ} (hx : x ≠ 0) {k : ℤ} (h : |x| ≤ 2 ^ k) : exponent x ≤ k :=
  (zpow_le_zpow_iff_right₀ one_lt_two).1 ((exponent_spec hx).1.trans h)

/-- A multiple of a larger distance is a multiple of a smaller one. -/
theorem exists_mul_pow {n : ℤ} {s t : ℤ} (h : t ≤ s) :
    ∃ m : ℤ, (n : ℚ) * 2 ^ s = m * 2 ^ t := by
  refine ⟨n * 2 ^ (s - t).toNat, ?_⟩
  have hsplit : (2 : ℚ) ^ s = 2 ^ (s - t).toNat * 2 ^ t := by
    rw [← zpow_natCast, Int.toNat_of_nonneg (by omega), ← zpow_add₀ two_ne_zero, sub_add_cancel]
  rw [hsplit, Int.cast_mul, Int.cast_pow, mul_assoc]
  rfl

/-- A multiple of its own distance that does not overflow is a float. -/
theorem isFloat_of_mul {x : ℚ} {m : ℤ} (h : |x| = m * 2 ^ grid x) (hx : |x| < 2 ^ 1024) :
    (finite x).IsFloat := by
  have hsize : (roundHalfEven (|x| / spacing x) : ℚ) * spacing x = |x| := by
    rw [h, spacing_eq, mul_div_cancel_right₀ _ (zpow_pos two_pos _).ne', roundHalfEven_intCast]
  show nearest x = finite x
  rw [nearest, hsize, if_neg (not_le.2 hx)]
  split_ifs with hneg
  · rw [abs_of_neg hneg, neg_neg]
  · rw [abs_of_nonneg (not_lt.1 hneg)]

/-- A multiple of a power of two with at most 53 binary digits is a float. -/
theorem isFloat_of_digits {x : ℚ} {m k : ℤ} (h : |x| = m * 2 ^ k) (hm : m < 2 ^ 53)
    (hk : -1074 ≤ k) (hx : |x| < 2 ^ 1024) : (finite x).IsFloat := by
  by_cases hzero : x = 0
  · rw [hzero]
    exact isFloat_of_mul (m := 0) (by simp) (by simp)
  have hbound : |x| < 2 ^ (53 + k) := by
    rw [h, zpow_add₀ two_ne_zero]
    exact mul_lt_mul_of_pos_right (by exact_mod_cast hm) (zpow_pos two_pos k)
  have hexponent : exponent x < 53 + k :=
    (zpow_lt_zpow_iff_right₀ one_lt_two).1 ((exponent_spec hzero).1.trans_lt hbound)
  obtain ⟨n, hn⟩ := @exists_mul_pow m k (grid x) (by rw [grid]; omega)
  exact isFloat_of_mul (h.trans hn) hx

/-- What a number is rounded to. -/
theorem nearest_eq_finite {x y : ℚ} (h : nearest x = finite y) :
    |y| = roundHalfEven (|x| / spacing x) * spacing x ∧ |y| < 2 ^ 1024 := by
  have hnonneg : (0 : ℚ) ≤ roundHalfEven (|x| / spacing x) * spacing x := by
    have hround := roundHalfEven_mono (div_nonneg (abs_nonneg x) (spacing_pos x).le)
    have hzero : roundHalfEven 0 = 0 := by exact_mod_cast roundHalfEven_intCast 0
    rw [hzero] at hround
    exact mul_nonneg (Int.cast_nonneg hround) (spacing_pos x).le
  rw [nearest] at h
  split_ifs at h with hbig hneg
  · obtain rfl := Double.finite.inj h
    rw [abs_neg, abs_of_nonneg hnonneg]
    exact ⟨rfl, not_le.1 hbig⟩
  · obtain rfl := Double.finite.inj h
    rw [abs_of_nonneg hnonneg]
    exact ⟨rfl, not_le.1 hbig⟩

/-- Rounding to a double does not pass a power of two that is on the grid. -/
theorem abs_nearest_le {x y : ℚ} (h : nearest x = finite y) :
    |y| ≤ 2 ^ max (exponent x + 1) (grid x) := by
  obtain ⟨hy, -⟩ := nearest_eq_finite h
  have hx : |x| ≤ 2 ^ max (exponent x + 1) (grid x) := by
    by_cases hzero : x = 0
    · rw [hzero, abs_zero]
      exact (zpow_pos two_pos _).le
    · exact (exponent_spec hzero).2.le.trans
        (zpow_le_zpow_right₀ one_le_two (le_max_left _ _))
  generalize hk : max (exponent x + 1) (grid x) = k at *
  have hle : grid x ≤ k := hk ▸ le_max_right _ _
  have hsplit : (2 : ℚ) ^ k = ((2 ^ (k - grid x).toNat : ℤ) : ℚ) * 2 ^ grid x := by
    rw [Int.cast_pow, Int.cast_ofNat, ← zpow_natCast, Int.toNat_of_nonneg (by omega),
      ← zpow_add₀ two_ne_zero, sub_add_cancel]
  have hquotient : |x| / spacing x ≤ ((2 ^ (k - grid x).toNat : ℤ) : ℚ) := by
    rw [div_le_iff₀ (spacing_pos x), spacing_eq, ← hsplit]
    exact hx
  have hround := roundHalfEven_mono hquotient
  rw [roundHalfEven_intCast] at hround
  rw [hy, hsplit, spacing_eq]
  exact mul_le_mul_of_nonneg_right (Int.cast_le.2 hround) (zpow_pos two_pos _).le

/-- The nearest double is a float. -/
theorem isFloat_nearest (x : ℚ) : (nearest x).IsFloat := by
  cases h : nearest x with
  | nan => trivial
  | inf negative => trivial
  | finite y =>
      obtain ⟨hy, hbound⟩ := nearest_eq_finite h
      by_cases hzero : y = 0
      · rw [hzero]
        exact isFloat_of_mul (m := 0) (by simp) (by simp)
      have hle := abs_nearest_le h
      have hexponent := exponent_le_of_le_pow hzero hle
      rcases le_or_gt (grid y) (grid x) with hfine | hcoarse
      · obtain ⟨m, hm⟩ := @exists_mul_pow (roundHalfEven (|x| / spacing x)) _ _ hfine
        rw [← spacing_eq x, ← hy] at hm
        exact isFloat_of_mul hm hbound
      · -- The number was rounded up to a power of two, where the grid is coarser.
        have hup : grid y = exponent y - 52 ∧ exponent y = max (exponent x + 1) (grid x) := by
          simp only [grid] at hcoarse hexponent ⊢
          omega
        have hpow : |y| = ((2 ^ 52 : ℤ) : ℚ) * 2 ^ grid y := by
          have hge := (exponent_spec hzero).1
          rw [← hup.2] at hle
          have hsplit : (2 : ℚ) ^ exponent y = ((2 ^ 52 : ℤ) : ℚ) * 2 ^ grid y := by
            rw [hup.1, Int.cast_pow, Int.cast_ofNat, ← zpow_natCast, ← zpow_add₀ two_ne_zero]
            congr 1
            push_cast
            ring
          rw [← hsplit]
          exact le_antisymm hle hge
        exact isFloat_of_mul hpow hbound

/-- A finite float is a whole number of a power of two. -/
theorem IsFloat.exists_pow {x : ℚ} (h : (finite x).IsFloat) :
    ∃ (m : ℤ) (k : ℤ), |x| = m * 2 ^ k := by
  obtain ⟨hx, -⟩ := nearest_eq_finite h
  exact ⟨_, _, hx⟩

theorem exponent_neg (x : ℚ) : exponent (-x) = exponent x := by
  rw [exponent, exponent, Rat.num_neg_eq_neg_num, Rat.den_neg_eq_den, Int.natAbs_neg, abs_neg]

theorem IsFloat.abs {x : ℚ} (h : (finite x).IsFloat) : (finite |x|).IsFloat := by
  obtain ⟨hx, hbound⟩ := nearest_eq_finite h
  have hgrid : grid |x| = grid x := by
    rcases abs_choice x with habs | habs
    · rw [habs]
    · rw [habs, grid, exponent_neg, grid]
  have habs : |(|x|)| = (roundHalfEven (|x| / spacing x) : ℤ) * 2 ^ grid |x| := by
    rw [abs_abs, hgrid]
    exact hx
  exact isFloat_of_mul habs (by rwa [abs_abs])

end Double

end DealFinder.Feeds
