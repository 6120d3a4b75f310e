/-
# Runs of a class

The maximal runs of members of a class in a list: the words of a text, or its tokens.
What is outside the class separates runs and is dropped, so a run never spreads over a
separator, and what the separators are does not matter.
-/

import Mathlib.Data.List.Basic
import Mathlib.Data.List.Forall2

namespace DealFinder.Math

universe u

variable {α : Type u} {inside : α → Bool} {l l' : List α} {x : α}

/-- The maximal runs of members of a class. -/
def runs (inside : α → Bool) (l : List α) : List (List α) :=
  (l.splitOnP fun x => !inside x).filter fun run => !run.isEmpty

@[simp]
theorem runs_nil : runs inside [] = [] := by
  simp [runs]

/-- A separator separates. -/
theorem runs_append (l l' : List α) (h : inside x = false) :
    runs inside (l ++ x :: l') = runs inside l ++ runs inside l' := by
  rw [runs, List.splitOnP_append_cons l l' (by rw [h]; rfl), List.filter_append]
  rfl

theorem runs_cons (l : List α) (h : inside x = false) : runs inside (x :: l) = runs inside l := by
  have happend := runs_append [] l h
  rwa [runs_nil, List.nil_append, List.nil_append] at happend

theorem runs_of_inside (hne : l ≠ []) (h : ∀ x ∈ l, inside x = true) : runs inside l = [l] := by
  rw [runs, List.splitOnP_eq_singleton fun x hx => by rw [h x hx]; rfl]
  simp [hne]

/-- A run has members, which are in the list and in the class. -/
theorem mem_runs {run : List α} (h : run ∈ runs inside l) :
    run ≠ [] ∧ ∀ x ∈ run, x ∈ l ∧ inside x = true := by
  obtain ⟨hpart, hne⟩ := List.mem_filter.1 h
  refine ⟨by simpa using hne, ?_⟩
  clear h hne
  induction l generalizing run with
  | nil =>
      obtain rfl := List.mem_singleton.1 hpart
      simp
  | cons y l ih =>
      rw [List.splitOnP_cons_eq_if_modifyHead] at hpart
      split_ifs at hpart with hy
      · rcases List.mem_cons.1 hpart with rfl | hrest
        · simp
        · exact fun x hx => (ih hrest x hx).imp_left (List.mem_cons_of_mem y)
      · obtain ⟨first, others, hparts⟩ :=
          List.exists_cons_of_ne_nil (List.splitOnP_ne_nil (fun x => !inside x) l)
        rw [hparts, List.modifyHead_cons] at hpart
        rw [hparts] at ih
        have hinside : inside y = true := by simpa using hy
        rcases List.mem_cons.1 hpart with rfl | hrest
        · intro x hx
          rcases List.mem_cons.1 hx with rfl | hx
          · exact ⟨List.mem_cons_self, hinside⟩
          · exact (ih List.mem_cons_self x hx).imp_left (List.mem_cons_of_mem y)
        · exact fun x hx => (ih (List.mem_cons_of_mem _ hrest) x hx).imp_left
            (List.mem_cons_of_mem y)

/-- Which separators there are does not matter. -/
theorem runs_congr
    (h : List.Forall₂ (fun x y => x = y ∨ (inside x = false ∧ inside y = false)) l l') :
    runs inside l = runs inside l' := by
  unfold runs
  congr 1
  induction h with
  | nil => rfl
  | @cons x y l l' hxy _ ih =>
      rw [List.splitOnP_cons_eq_if_modifyHead, List.splitOnP_cons_eq_if_modifyHead, ih]
      rcases hxy with rfl | ⟨hx, hy⟩
      · rfl
      · simp [hx, hy]

/-- Runs joined by separators are the runs again. -/
theorem runs_intercalate (h : inside x = false) {words : List (List α)}
    (hwords : ∀ w ∈ words, w ≠ [] ∧ ∀ y ∈ w, inside y = true) :
    runs inside ([x].intercalate words) = words := by
  induction words with
  | nil => simp
  | cons w words ih =>
      obtain ⟨⟨hne, hw⟩, hrest⟩ := List.forall_mem_cons.1 hwords
      cases words with
      | nil => simpa using runs_of_inside hne hw
      | cons w' words =>
          rw [List.intercalate_cons_cons, List.append_assoc, List.singleton_append,
            runs_append _ _ h, ih hrest, runs_of_inside hne hw, List.singleton_append]

theorem cons_intercalate {words : List (List α)} (h : words ≠ []) :
    x :: [x].intercalate words = words.flatMap fun w => x :: w := by
  induction words with
  | nil => exact absurd rfl h
  | cons w words ih =>
      cases words with
      | nil => simp
      | cons w' words =>
          rw [List.intercalate_cons_cons, List.append_assoc, List.singleton_append, ih (by simp)]
          simp

/-- In a text of words, a word stands between two separators exactly when it is one of them. -/
theorem infix_intercalate_iff (h : inside x = false) {words : List (List α)} {w : List α}
    (hwords : ∀ w ∈ words, w ≠ [] ∧ ∀ y ∈ w, inside y = true)
    (hw : w ≠ [] ∧ ∀ y ∈ w, inside y = true) :
    x :: (w ++ [x]) <:+: x :: ([x].intercalate words ++ [x]) ↔ w ∈ words := by
  constructor
  · rintro ⟨before, after, htext⟩
    have hall : runs inside (x :: ([x].intercalate words ++ [x])) = words := by
      rw [runs_cons _ h, runs_append _ _ h, runs_intercalate h hwords, runs_nil, List.append_nil]
    have hparts : before ++ x :: (w ++ [x]) ++ after = before ++ x :: (w ++ x :: after) := by simp
    rw [← hall, ← htext, hparts, runs_append _ _ h, runs_append _ _ h,
      runs_of_inside hw.1 hw.2, List.singleton_append]
    exact List.mem_append_right _ List.mem_cons_self
  · intro hmem
    obtain ⟨front, rest, rfl⟩ := List.mem_iff_append.1 hmem
    have hnext : ∃ after, rest.flatMap (fun w => x :: w) ++ [x] = x :: after := by
      cases rest with
      | nil => exact ⟨[], rfl⟩
      | cons w' rest => exact ⟨w' ++ rest.flatMap (fun w => x :: w) ++ [x], by simp⟩
    obtain ⟨after, hafter⟩ := hnext
    refine ⟨front.flatMap fun w => x :: w, after, ?_⟩
    show _ = (x :: [x].intercalate (front ++ w :: rest)) ++ [x]
    rw [cons_intercalate (by simp), List.flatMap_append, List.flatMap_cons, List.append_assoc,
      List.append_assoc, List.append_assoc, hafter]
    simp

end DealFinder.Math
