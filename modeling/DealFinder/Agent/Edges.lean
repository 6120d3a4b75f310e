/-
# The strong picks at the edges

A long context is read best at its two ends. `lost_in_the_middle` deals the ranked items out to two
sides in turn and lays the second side behind the first, backwards, so every pick stands as far from
its end as its rank allows (`edgeFirst_lostInTheMiddle`).
-/

import Mathlib.Data.List.Induction
import Mathlib.Data.List.Perm.Basic

namespace DealFinder.Agent

universe u

variable {α : Type u}

/-- One turn of the loop: the items at even places go to the head, the others to the tail. -/
def dealItem (sides : List α × List α) (entry : α × ℕ) : List α × List α :=
  if entry.2 % 2 = 0 then (sides.1 ++ [entry.1], sides.2) else (sides.1, sides.2 ++ [entry.1])

/-- The head and the tail of `lost_in_the_middle`. -/
def sidesOf (items : List α) : List α × List α := items.zipIdx.foldl dealItem ([], [])

/-- `lost_in_the_middle`, which looks at no item but only at its rank. -/
def lostInTheMiddle (items : List α) : List α := (sidesOf items).1 ++ (sidesOf items).2.reverse

/-- How far a place in a list of `n` items is from the nearer end. -/
def toNearerEnd (n place : ℕ) : ℕ := min place (n - 1 - place)

/-- `i / 2` places from the start for an even rank, from the end for an odd one. -/
def placeOf (n i : ℕ) : ℕ := if i % 2 = 0 then i / 2 else n - 1 - i / 2

/-- The items of a ranking, each at its place, and the weaker never nearer to an end. -/
structure EdgeFirst (items ordered : List α) : Prop where
  perm : ordered.Perm items
  placed : ∀ (i : ℕ) (hi : i < items.length), ordered[placeOf items.length i]? = some items[i]
  nearer : ∀ i j, i ≤ j → j < items.length →
    toNearerEnd items.length (placeOf items.length i) ≤
      toNearerEnd items.length (placeOf items.length j)

/-! ## The two sides -/

theorem getElem?_concat_of_ne {l : List α} {j : ℕ} (hj : j ≠ l.length) (a : α) :
    (l ++ [a])[j]? = l[j]? := by
  by_cases hlt : j < l.length
  · exact List.getElem?_append_left hlt
  · have hlong : (l ++ [a]).length ≤ j := by
      rw [List.length_append, List.length_singleton]
      omega
    rw [List.getElem?_eq_none hlong, List.getElem?_eq_none (Nat.le_of_not_lt hlt)]

/-- Two lists that agree at two places still do when both get the same last item, if these places
are both at the end or both not. -/
theorem getElem?_concat_congr {l m : List α} {j k : ℕ} (h : l[j]? = m[k]?)
    (hend : j = l.length ↔ k = m.length) (a : α) : (l ++ [a])[j]? = (m ++ [a])[k]? := by
  by_cases hj : j = l.length
  · rw [hj, hend.1 hj, List.getElem?_concat_length, List.getElem?_concat_length]
  · rw [getElem?_concat_of_ne hj, getElem?_concat_of_ne (mt hend.2 hj), h]

theorem sidesOf_concat (items : List α) (it : α) :
    sidesOf (items ++ [it]) = dealItem (sidesOf items) (it, items.length) := by
  rw [sidesOf, List.zipIdx_append, List.foldl_append, Nat.zero_add]
  rfl

theorem sidesOf_of_even {items : List α} (heven : items.length % 2 = 0) (it : α) :
    sidesOf (items ++ [it]) = ((sidesOf items).1 ++ [it], (sidesOf items).2) := by
  rw [sidesOf_concat]
  exact if_pos heven

theorem sidesOf_of_odd {items : List α} (hodd : ¬ items.length % 2 = 0) (it : α) :
    sidesOf (items ++ [it]) = ((sidesOf items).1, (sidesOf items).2 ++ [it]) := by
  rw [sidesOf_concat]
  exact if_neg hodd

theorem length_sidesOf (items : List α) :
    (sidesOf items).1.length = (items.length + 1) / 2 ∧
      (sidesOf items).2.length = items.length / 2 := by
  induction items using List.reverseRecOn with
  | nil => simp [sidesOf]
  | append_singleton items it ih =>
      obtain ⟨hhead, htail⟩ := ih
      by_cases heven : items.length % 2 = 0
      · rw [sidesOf_of_even heven]
        simp only [List.length_append, List.length_singleton]
        omega
      · rw [sidesOf_of_odd heven]
        simp only [List.length_append, List.length_singleton]
        omega

/-- The head holds the items of even rank in order, the tail those of odd rank. -/
theorem getElem?_sidesOf (items : List α) (j : ℕ) :
    (sidesOf items).1[j]? = items[2 * j]? ∧ (sidesOf items).2[j]? = items[2 * j + 1]? := by
  induction items using List.reverseRecOn with
  | nil => exact ⟨rfl, rfl⟩
  | append_singleton items it ih =>
      obtain ⟨hhead, htail⟩ := length_sidesOf items
      by_cases heven : items.length % 2 = 0
      · rw [sidesOf_of_even heven]
        have hlater : 2 * j + 1 ≠ items.length := by omega
        exact ⟨getElem?_concat_congr ih.1 (by omega) it,
          ih.2.trans (getElem?_concat_of_ne hlater it).symm⟩
      · rw [sidesOf_of_odd heven]
        have hlater : 2 * j ≠ items.length := by omega
        exact ⟨ih.1.trans (getElem?_concat_of_ne hlater it).symm,
          getElem?_concat_congr ih.2 (by omega) it⟩

theorem perm_sidesOf (items : List α) :
    ((sidesOf items).1 ++ (sidesOf items).2).Perm items := by
  induction items using List.reverseRecOn with
  | nil => exact List.Perm.refl []
  | append_singleton items it ih =>
      by_cases heven : items.length % 2 = 0
      · rw [sidesOf_of_even heven]
        calc (sidesOf items).1 ++ [it] ++ (sidesOf items).2
            = (sidesOf items).1 ++ ([it] ++ (sidesOf items).2) := List.append_assoc ..
          List.Perm _ ((sidesOf items).1 ++ ((sidesOf items).2 ++ [it])) :=
            List.perm_append_comm.append_left _
          _ = (sidesOf items).1 ++ (sidesOf items).2 ++ [it] := (List.append_assoc ..).symm
          List.Perm _ (items ++ [it]) := ih.append_right [it]
      · rw [sidesOf_of_odd heven, ← List.append_assoc]
        exact ih.append_right [it]

/-! ## The places -/

/-- An item is as far from the nearer end as half its rank. -/
theorem toNearerEnd_placeOf {n i : ℕ} (hi : i < n) : toNearerEnd n (placeOf n i) = i / 2 := by
  rw [toNearerEnd, placeOf]
  split_ifs with heven
  · omega
  · omega

theorem placed_lostInTheMiddle (items : List α) {i : ℕ} (hi : i < items.length) :
    (lostInTheMiddle items)[placeOf items.length i]? = some items[i] := by
  obtain ⟨hhead, htail⟩ := length_sidesOf items
  obtain ⟨heven, hodd⟩ := getElem?_sidesOf items (i / 2)
  rw [lostInTheMiddle, placeOf, ← List.getElem?_eq_getElem hi]
  split_ifs with hrank
  · rw [List.getElem?_append_left (by omega), heven]
    congr 1
    omega
  · rw [List.getElem?_append_right (by omega), List.getElem?_reverse (by omega)]
    have hplace : (sidesOf items).2.length - 1 - (items.length - 1 - i / 2 -
        (sidesOf items).1.length) = i / 2 := by
      omega
    rw [hplace, hodd]
    congr 1
    omega

/-- **Edge-first ordering.** The items are those of the ranking, and the item of rank `i` stands
`i / 2` places from its end. -/
theorem edgeFirst_lostInTheMiddle (items : List α) : EdgeFirst items (lostInTheMiddle items) where
  perm := ((List.reverse_perm _).append_left _).trans (perm_sidesOf items)
  placed _ hi := placed_lostInTheMiddle items hi
  nearer := by
    intro i j hle hj
    rw [toNearerEnd_placeOf (Nat.lt_of_le_of_lt hle hj), toNearerEnd_placeOf hj]
    exact Nat.div_le_div_right hle

example : lostInTheMiddle [1, 2, 3, 4, 5] = [1, 3, 5, 4, 2] := by decide

end DealFinder.Agent
