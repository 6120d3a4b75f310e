/-
# The first elements of a sorted list, by rank

Taking the first `n` elements of a sorted list selects the elements with fewer
than `n` smaller ones. The rank on the right-hand side counts in the unsorted
list, so a selection made through sorting can be described without sorting.
-/

import Mathlib.Data.List.Sort

namespace DealFinder.Math

universe u

variable {α : Type u} [LinearOrder α]

/-- How many elements of a list lie strictly below `x`. -/
def rank (l : List α) (x : α) : ℕ := (l.filter fun y => decide (y < x)).length

theorem rank_perm {first second : List α} (h : first.Perm second) (x : α) :
    rank first x = rank second x :=
  (h.filter _).length_eq

private theorem mem_take_iff_rank_lt_of_sorted {x : α} :
    ∀ (l : List α) (_ : l.Pairwise (· < ·)) (n : ℕ),
      x ∈ l.take n ↔ x ∈ l ∧ rank l x < n
  | [], _, n => by simp
  | a :: rest, hsorted, 0 => by simp
  | a :: rest, hsorted, n + 1 => by
      obtain ⟨hhead, htail⟩ := List.pairwise_cons.1 hsorted
      have ih := mem_take_iff_rank_lt_of_sorted (x := x) rest htail n
      by_cases heq : x = a
      · subst heq
        have hnone : rank (x :: rest) x = 0 := by
          simp only [rank, List.length_eq_zero_iff, List.filter_eq_nil_iff]
          intro y hy
          rcases List.mem_cons.1 hy with rfl | hy
          · simp
          · simpa using (hhead y hy).le
        simp [hnone]
      · have hcount : x ∈ rest → rank (a :: rest) x = rank rest x + 1 := fun hx => by
          simp [rank, hhead x hx]
        simp only [List.take_succ_cons, List.mem_cons, heq, false_or, ih]
        constructor
        · rintro ⟨hx, hlt⟩
          exact ⟨hx, by rw [hcount hx]; omega⟩
        · rintro ⟨hx, hlt⟩
          exact ⟨hx, by rw [hcount hx] at hlt; omega⟩

/-- The first `n` elements of the sorted list are those of rank below `n`. -/
theorem mem_take_insertionSort_iff {l : List α} (hnodup : l.Nodup) {n : ℕ} {x : α} :
    x ∈ (l.insertionSort (· ≤ ·)).take n ↔ x ∈ l ∧ rank l x < n := by
  have hperm := l.perm_insertionSort (· ≤ ·)
  have hstrict : (l.insertionSort (· ≤ ·)).Pairwise (· < ·) := by
    have hle := l.pairwise_insertionSort (· ≤ ·)
    exact (hle.and (hperm.nodup_iff.2 hnodup)).imp fun h => lt_of_le_of_ne h.1 h.2
  rw [mem_take_iff_rank_lt_of_sorted _ hstrict, hperm.mem_iff, rank_perm hperm]

end DealFinder.Math
