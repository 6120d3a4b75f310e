/-
# Drift

The population stability index compares the mix of live traffic with a reference mix, bin by bin,
and above a threshold the mix has drifted. The shift that the drift check simulates moves every bin
along a line away from its reference share, so a larger shift never looks like a smaller one
(`drift_monotone`). Numbers are real here.
-/

import DealFinder.Math.LogSpread
import Mathlib.Algebra.BigOperators.Fin

noncomputable section

namespace DealFinder.Ops

open DealFinder.Math

variable {n : ℕ}

/-! ## The index -/

/-- `np.clip(x / x.sum(), 1e-6, None)`. -/
def clippedShares (x : Fin n → ℝ) (i : Fin n) : ℝ := max (x i / ∑ j, x j) (1 / 10 ^ 6)

/-- `population_stability_index`. -/
def populationStabilityIndex (ref cur : Fin n → ℝ) : ℝ :=
  ∑ i, (clippedShares cur i - clippedShares ref i) *
    Real.log (clippedShares cur i / clippedShares ref i)

/-- `has_drifted`. -/
def HasDrifted (ref cur : Fin n → ℝ) (threshold : ℝ) : Prop :=
  threshold ≤ populationStabilityIndex ref cur

/-! ## The shift -/

/-- `shift_distribution`. -/
def shiftDistribution (ref : Fin n → ℝ) (frac : ℝ) (i : Fin n) : ℝ :=
  let moved := fun j => ref j * frac
  ref i - moved i + if n ≤ i.val + 3 then (∑ j, moved j) / 3 else 0

/-- `DRIFT_THRESHOLD`. -/
def driftThreshold : ℝ := 1 / 5

/-- `DriftReport`. -/
structure DriftReport where
  psi : ℝ
  threshold : ℝ
  drifted : Prop
  frac : ℝ

/-- `check_drift`, on the histogram of the reference, by the rounding of the report. -/
def checkDrift (round : ℝ → ℝ) (ref : Fin n → ℝ) (frac : ℝ) : DriftReport where
  psi := round (populationStabilityIndex ref (shiftDistribution ref frac))
  threshold := driftThreshold
  drifted := HasDrifted ref (shiftDistribution ref frac) driftThreshold
  frac := frac

/-! ## Histograms -/

/-- Counts that are not negative and not all zero. -/
structure Histogram (n : ℕ) where
  counts : Fin n → ℝ
  nonneg : ∀ i, 0 ≤ counts i
  total_pos : 0 < ∑ i, counts i

theorem clippedShares_pos (x : Fin n → ℝ) (i : Fin n) : 0 < clippedShares x i :=
  lt_of_lt_of_le (by norm_num) (le_max_right _ _)

/-- The index adds up the spreads of the bins. -/
theorem populationStabilityIndex_eq (ref cur : Fin n → ℝ) :
    populationStabilityIndex ref cur =
      ∑ i, spread (clippedShares ref i) (clippedShares cur i) := rfl

theorem populationStabilityIndex_comm (ref cur : Fin n → ℝ) :
    populationStabilityIndex ref cur = populationStabilityIndex cur ref := by
  rw [populationStabilityIndex_eq, populationStabilityIndex_eq]
  exact Finset.sum_congr rfl fun i _ => spread_comm _ _

theorem populationStabilityIndex_nonneg (ref cur : Fin n → ℝ) :
    0 ≤ populationStabilityIndex ref cur := by
  rw [populationStabilityIndex_eq]
  exact Finset.sum_nonneg fun i _ =>
    spread_nonneg (clippedShares_pos ref i) (clippedShares_pos cur i)

theorem populationStabilityIndex_self (ref : Fin n → ℝ) : populationStabilityIndex ref ref = 0 := by
  rw [populationStabilityIndex_eq]
  exact Finset.sum_eq_zero fun i _ => spread_self _

/-! ## Where the mass goes -/

/-- The share of the whole that the last three bins take each. -/
def lastThree (total : ℝ) (i : Fin n) : ℝ := if n ≤ i.val + 3 then total / 3 else 0

/-- Every bin moves on a line. -/
theorem shiftDistribution_eq (ref : Fin n → ℝ) (frac : ℝ) (i : Fin n) :
    shiftDistribution ref frac i =
      ref i + frac * (lastThree (∑ j, ref j) i - ref i) := by
  rw [shiftDistribution, lastThree]
  dsimp only
  rw [← Finset.sum_mul]
  split_ifs with hlast
  · ring
  · ring

theorem shiftDistribution_zero (ref : Fin n → ℝ) : shiftDistribution ref 0 = ref := by
  funext i
  rw [shiftDistribution_eq, zero_mul, add_zero]

/-- With three bins or more, the last three take the whole. -/
theorem sum_lastThree (hn : 3 ≤ n) (total : ℝ) : ∑ i : Fin n, lastThree total i = total := by
  obtain ⟨m, rfl⟩ := Nat.exists_eq_add_of_le' hn
  have hfirst : ∀ i : Fin m, lastThree total (Fin.castAdd 3 i) = 0 := by
    intro i
    have hi : ¬m + 3 ≤ (Fin.castAdd 3 i).val + 3 := by
      have hlt := i.isLt
      simp only [Fin.val_castAdd]
      omega
    rw [lastThree, if_neg hi]
  have hlast : ∀ i : Fin 3, lastThree total (Fin.natAdd m i) = total / 3 := by
    intro i
    have hi : m + 3 ≤ (Fin.natAdd m i).val + 3 := by
      simp only [Fin.val_natAdd]
      omega
    rw [lastThree, if_pos hi]
  rw [Fin.sum_univ_add, Finset.sum_eq_zero fun i _ => hfirst i, Fin.sum_univ_three, hlast, hlast,
    hlast]
  ring

/-- The total mass stays. -/
theorem sum_shiftDistribution (hn : 3 ≤ n) (ref : Fin n → ℝ) (frac : ℝ) :
    ∑ i, shiftDistribution ref frac i = ∑ i, ref i := by
  simp only [shiftDistribution_eq]
  rw [Finset.sum_add_distrib, ← Finset.mul_sum, Finset.sum_sub_distrib, sum_lastThree hn]
  ring

/-! ## Larger shifts -/

/-- A larger shift is further away from the reference, in every bin. -/
theorem between_shares (hn : 3 ≤ n) (ref : Fin n → ℝ) {f g : ℝ} (hf : 0 ≤ f) (hfg : f ≤ g)
    (i : Fin n) :
    Between (ref i / ∑ j, ref j)
      (shiftDistribution ref f i / ∑ j, shiftDistribution ref f j)
      (shiftDistribution ref g i / ∑ j, shiftDistribution ref g j) := by
  have hline : ∀ frac, shiftDistribution ref frac i / ∑ j, shiftDistribution ref frac j =
      ref i / (∑ j, ref j) +
        frac * ((lastThree (∑ j, ref j) i - ref i) / ∑ j, ref j) := by
    intro frac
    rw [sum_shiftDistribution hn, shiftDistribution_eq]
    ring
  rw [hline, hline]
  exact between_of_line _ _ hf hfg

/-- The index grows with the shift. -/
theorem populationStabilityIndex_mono (hn : 3 ≤ n) (ref : Fin n → ℝ) {f g : ℝ} (hf : 0 ≤ f)
    (hfg : f ≤ g) :
    populationStabilityIndex ref (shiftDistribution ref f) ≤
      populationStabilityIndex ref (shiftDistribution ref g) := by
  rw [populationStabilityIndex_eq, populationStabilityIndex_eq]
  apply Finset.sum_le_sum
  intro i _
  exact spread_clip_le (by norm_num) (between_shares hn ref hf hfg i)

/-- The shift keeps the total mass, the index is symmetric, not negative and zero on equal mixes,
and it grows with the shift: a mix that is reported as drifted stays so under any larger shift. -/
theorem drift_monotone (hn : 3 ≤ n) (ref : Histogram n) :
    (∀ frac, ∑ i, shiftDistribution ref.counts frac i = ∑ i, ref.counts i) ∧
    (∀ cur : Histogram n, populationStabilityIndex ref.counts cur.counts =
        populationStabilityIndex cur.counts ref.counts ∧
      0 ≤ populationStabilityIndex ref.counts cur.counts) ∧
    populationStabilityIndex ref.counts ref.counts = 0 ∧
    populationStabilityIndex ref.counts (shiftDistribution ref.counts 0) = 0 ∧
    MonotoneOn (fun frac => populationStabilityIndex ref.counts (shiftDistribution ref.counts frac))
      (Set.Icc 0 1) ∧
    (∀ threshold f g, 0 ≤ f → f ≤ g → g ≤ 1 →
      HasDrifted ref.counts (shiftDistribution ref.counts f) threshold →
        HasDrifted ref.counts (shiftDistribution ref.counts g) threshold) ∧
    ∀ round f g, 0 ≤ f → f ≤ g → g ≤ 1 → (checkDrift round ref.counts f).drifted →
      (checkDrift round ref.counts g).drifted := by
  have hmono : ∀ threshold f g, 0 ≤ f → f ≤ g →
      HasDrifted ref.counts (shiftDistribution ref.counts f) threshold →
        HasDrifted ref.counts (shiftDistribution ref.counts g) threshold := by
    intro threshold f g hf hfg hdrifted
    exact hdrifted.trans (populationStabilityIndex_mono hn ref.counts hf hfg)
  have hzero : populationStabilityIndex ref.counts (shiftDistribution ref.counts 0) = 0 := by
    rw [shiftDistribution_zero, populationStabilityIndex_self]
  have hgrows : MonotoneOn
      (fun frac => populationStabilityIndex ref.counts (shiftDistribution ref.counts frac))
      (Set.Icc 0 1) := by
    intro f hf g _ hfg
    exact populationStabilityIndex_mono hn ref.counts hf.1 hfg
  exact ⟨sum_shiftDistribution hn ref.counts,
    fun cur => ⟨populationStabilityIndex_comm _ _, populationStabilityIndex_nonneg _ _⟩,
    populationStabilityIndex_self _, hzero, hgrows,
    fun threshold f g hf hfg _ => hmono threshold f g hf hfg,
    fun round f g hf hfg _ => hmono driftThreshold f g hf hfg⟩

/-- A mix of three bins, the first one empty. -/
def threeBins : Histogram 3 where
  counts := fun i => i.val
  nonneg := fun i => Nat.cast_nonneg i.val
  total_pos := by
    rw [Fin.sum_univ_three]
    norm_num

theorem drift_monotone_three_bins :
    ∑ i, shiftDistribution threeBins.counts (1 / 10) i = ∑ i, threeBins.counts i ∧
      populationStabilityIndex threeBins.counts (shiftDistribution threeBins.counts (1 / 10)) ≤
        populationStabilityIndex threeBins.counts (shiftDistribution threeBins.counts (3 / 10)) := by
  obtain ⟨htotal, -, -, -, hgrows, -⟩ := drift_monotone le_rfl threeBins
  exact ⟨htotal (1 / 10), hgrows ⟨by norm_num, by norm_num⟩ ⟨by norm_num, by norm_num⟩
    (by norm_num)⟩

end DealFinder.Ops

end
