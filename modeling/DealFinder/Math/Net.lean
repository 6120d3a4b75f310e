/-
# Greedy nets

Going through some points, one keeps each that is not near a point kept before. What is kept is
packed: no kept point is near to one kept behind it (`packed_net`). And it covers: every point is
kept, or near to a point kept before it (`covered_net`). A point that was met before is near to a
kept one, if the points are near to themselves (`near_net_of_mem`), so no more points are kept
than there are different ones (`length_net_le`).
-/

import Mathlib.Data.List.Dedup
import Mathlib.Data.List.Induction
import Mathlib.Data.List.Perm.Subperm

namespace DealFinder.Math

universe u

variable {α : Type u} (near : α → α → Bool)

/-- What is kept, with one more point. -/
def keepFar (kept : List α) (x : α) : List α :=
  if kept.any fun k => near k x then kept else kept ++ [x]

/-- The points that are kept. -/
def net (points : List α) : List α := points.foldl (keepFar near) []

variable {near} {points : List α} {x : α}

theorem net_concat (points : List α) (x : α) :
    net near (points ++ [x]) = keepFar near (net near points) x := List.foldl_concat ..

theorem keepFar_of_near {kept : List α} {k : α} (hmem : k ∈ kept) (hnear : near k x = true) :
    keepFar near kept x = kept :=
  if_pos (List.any_eq_true.2 ⟨k, hmem, hnear⟩)

theorem keepFar_of_far {kept : List α} (h : ∀ k ∈ kept, near k x = false) :
    keepFar near kept x = kept ++ [x] := by
  refine if_neg fun hany => ?_
  obtain ⟨k, hmem, hnear⟩ := List.any_eq_true.1 hany
  rw [h k hmem] at hnear
  cases hnear

/-- The two cases of a point. -/
theorem near_or_far (kept : List α) (x : α) :
    (∃ k ∈ kept, near k x = true) ∨ ∀ k ∈ kept, near k x = false := by
  by_cases h : ∃ k ∈ kept, near k x = true
  · exact .inl h
  · refine .inr fun k hmem => Bool.eq_false_iff.2 fun hnear => h ⟨k, hmem, hnear⟩

theorem sublist_net (points : List α) : (net near points).Sublist points := by
  induction points using List.reverseRecOn with
  | nil => exact List.Sublist.refl _
  | append_singleton past x ih =>
      rw [net_concat]
      rcases near_or_far (net near past) x with ⟨k, hmem, hnear⟩ | hfar
      · rw [keepFar_of_near hmem hnear]
        exact ih.trans (List.sublist_append_left past [x])
      · rw [keepFar_of_far hfar]
        exact ih.append (List.Sublist.refl _)

theorem packed_net (points : List α) :
    (net near points).Pairwise fun k x => near k x = false := by
  induction points using List.reverseRecOn with
  | nil => exact List.Pairwise.nil
  | append_singleton past x ih =>
      rw [net_concat]
      rcases near_or_far (net near past) x with ⟨k, hmem, hnear⟩ | hfar
      · rwa [keepFar_of_near hmem hnear]
      · rw [keepFar_of_far hfar, List.pairwise_append]
        refine ⟨ih, List.pairwise_singleton _ _, fun k hmem x' hx' => ?_⟩
        rw [List.mem_singleton.1 hx']
        exact hfar k hmem

theorem mem_net_concat_of_mem (h : x ∈ net near points) (y : α) : x ∈ net near (points ++ [y]) := by
  rw [net_concat, keepFar]
  split_ifs
  · exact h
  · exact List.mem_append_left _ h

theorem covered_net (hmem : x ∈ points) :
    x ∈ net near points ∨ ∃ k ∈ net near points, near k x = true := by
  induction points using List.reverseRecOn with
  | nil => exact absurd hmem List.not_mem_nil
  | append_singleton past y ih =>
      rcases List.mem_append.1 hmem with hpast | hlast
      · rcases ih hpast with hkept | ⟨k, hkept, hnear⟩
        · exact .inl (mem_net_concat_of_mem hkept y)
        · exact .inr ⟨k, mem_net_concat_of_mem hkept y, hnear⟩
      · obtain rfl := List.mem_singleton.1 hlast
        rw [net_concat]
        rcases near_or_far (net near past) x with ⟨k, hkept, hnear⟩ | hfar
        · rw [keepFar_of_near hkept hnear]
          exact .inr ⟨k, hkept, hnear⟩
        · rw [keepFar_of_far hfar]
          exact .inl (List.mem_append_right _ List.mem_cons_self)

/-- A point that was met is near to a kept one, if it is near to itself. -/
theorem near_net_of_mem (hself : near x x = true) (hmem : x ∈ points) :
    ∃ k ∈ net near points, near k x = true := by
  rcases covered_net hmem with hkept | hnear
  · exact ⟨x, hkept, hself⟩
  · exact hnear

theorem nodup_net (hself : ∀ x ∈ points, near x x = true) : (net near points).Nodup := by
  refine (packed_net points).imp_of_mem fun {k x} hk _ hfar heq => ?_
  rw [← heq, hself k ((sublist_net points).subset hk)] at hfar
  cases hfar

theorem length_net_le [DecidableEq α] (hself : ∀ x ∈ points, near x x = true) :
    (net near points).length ≤ points.dedup.length :=
  (List.subperm_of_subset (nodup_net hself) fun _ hmem =>
    List.mem_dedup.2 ((sublist_net points).subset hmem)).length_le

end DealFinder.Math
