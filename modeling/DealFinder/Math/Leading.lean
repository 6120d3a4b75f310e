/-
# Sums over the leading places

Weights that decrease with the place add up to most over the leading places. Of the sets of `n`
places the first `n` have the greatest sum, and no other set has it when the weights decrease
strictly.
-/

import Mathlib.Algebra.BigOperators.Group.Finset.Piecewise
import Mathlib.Algebra.Order.BigOperators.Group.Finset

namespace DealFinder.Math

open Finset

universe u

variable {M : Type u} [AddCommMonoid M] [PartialOrder M] [IsOrderedCancelAddMonoid M]
variable {f : ℕ → M} {places : Finset ℕ}

/-- The places behind the leading ones weigh at most as much as those that miss before them. -/
theorem sum_le_sum_inter_add (hf : Antitone f) (places : Finset ℕ) :
    ∑ i ∈ places, f i ≤ ∑ i ∈ range places.card ∩ places, f i +
      (range places.card \ places).card • f places.card := by
  have hbehind : ∑ i ∈ places \ range places.card, f i ≤
      (places \ range places.card).card • f places.card := by
    apply sum_le_card_nsmul
    intro i hi
    exact hf (not_lt.1 fun hlt => (mem_sdiff.1 hi).2 (mem_range.2 hlt))
  have hcard : (places \ range places.card).card = (range places.card \ places).card :=
    card_sdiff_comm (card_range places.card).symm
  calc ∑ i ∈ places, f i
      = ∑ i ∈ places ∩ range places.card, f i + ∑ i ∈ places \ range places.card, f i :=
        (sum_inter_add_sum_sdiff places (range places.card) f).symm
    _ ≤ ∑ i ∈ places ∩ range places.card, f i +
          (places \ range places.card).card • f places.card := by
        gcongr
    _ = ∑ i ∈ range places.card ∩ places, f i +
          (range places.card \ places).card • f places.card := by
        rw [inter_comm, hcard]

/-- As many places weigh at most what the leading ones do. -/
theorem sum_le_sum_range_card (hf : Antitone f) (places : Finset ℕ) :
    ∑ i ∈ places, f i ≤ ∑ i ∈ range places.card, f i := by
  have hmissing : (range places.card \ places).card • f places.card ≤
      ∑ i ∈ range places.card \ places, f i := by
    apply card_nsmul_le_sum
    intro i hi
    exact hf (mem_range.1 (mem_sdiff.1 hi).1).le
  calc ∑ i ∈ places, f i
      ≤ ∑ i ∈ range places.card ∩ places, f i + (range places.card \ places).card • f places.card :=
        sum_le_sum_inter_add hf places
    _ ≤ ∑ i ∈ range places.card ∩ places, f i + ∑ i ∈ range places.card \ places, f i := by gcongr
    _ = ∑ i ∈ range places.card, f i := sum_inter_add_sum_sdiff (range places.card) places f

/-- Only the leading places weigh what they do. -/
theorem sum_lt_sum_range_card (hf : StrictAnti f) (hplaces : places ≠ range places.card) :
    ∑ i ∈ places, f i < ∑ i ∈ range places.card, f i := by
  have hnonempty : (range places.card \ places).Nonempty := by
    rw [nonempty_iff_ne_empty, ne_eq, sdiff_eq_empty_iff_subset]
    exact fun hsub => hplaces (eq_of_subset_of_card_le hsub (card_range places.card).ge).symm
  have hmissing : (range places.card \ places).card • f places.card <
      ∑ i ∈ range places.card \ places, f i := by
    rw [← sum_const]
    apply sum_lt_sum_of_nonempty hnonempty
    intro i hi
    exact hf (mem_range.1 (mem_sdiff.1 hi).1)
  calc ∑ i ∈ places, f i
      ≤ ∑ i ∈ range places.card ∩ places, f i + (range places.card \ places).card • f places.card :=
        sum_le_sum_inter_add hf.antitone places
    _ < ∑ i ∈ range places.card ∩ places, f i + ∑ i ∈ range places.card \ places, f i := by gcongr
    _ = ∑ i ∈ range places.card, f i := sum_inter_add_sum_sdiff (range places.card) places f

end DealFinder.Math
