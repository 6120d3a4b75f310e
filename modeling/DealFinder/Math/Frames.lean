/-
# Frames

A text of frames, each of some lines and a blank one behind them. Lines that are not blank and
that hold no line end are found again (`framesOf_flatMap`).
-/

import Mathlib.Data.List.Basic

namespace DealFinder.Math

universe u

variable {α : Type u}

/-- Ending each of some parts by a mark is joining them by it, with an empty part behind. -/
theorem flatMap_concat_eq_intercalate (mark : α) (parts : List (List α)) :
    (parts.flatMap fun part => part ++ [mark]) = [mark].intercalate (parts ++ [[]]) := by
  induction parts with
  | nil => rfl
  | cons part rest ih =>
      rw [List.flatMap_cons, ih, List.cons_append]
      cases rest with
      | nil => rw [List.nil_append, List.intercalate_cons_cons, List.append_assoc]
      | cons next rest =>
          rw [List.cons_append, List.intercalate_cons_cons, List.append_assoc]

section Frames

variable (newline : α)

/-- The text of a frame. -/
def frameText (lines : List (List α)) : List α :=
  (lines.flatMap fun line => line ++ [newline]) ++ [newline]

theorem frameText_eq (lines : List (List α)) :
    frameText newline lines = (lines ++ [[]]).flatMap fun line => line ++ [newline] := by
  rw [frameText, List.flatMap_append, List.flatMap_singleton, List.nil_append]

variable [DecidableEq α]

/-- The frames of a text: what stands between the blank lines, if anything does. -/
def framesOf (text : List α) : List (List (List α)) :=
  ((text.splitOn newline).splitOn []).filter fun lines => !lines.isEmpty

variable {newline}

/-- The lines of some frames. -/
theorem splitOn_frames {frames : List (List (List α))}
    (h : ∀ lines ∈ frames, ∀ line ∈ lines, newline ∉ line) :
    (frames.flatMap (frameText newline)).splitOn newline =
      [[]].intercalate (frames ++ [[], []]) := by
  have htext : frames.flatMap (frameText newline) =
      [newline].intercalate ((frames.flatMap fun lines => lines ++ [[]]) ++ [[]]) := by
    rw [← flatMap_concat_eq_intercalate, List.flatMap_assoc]
    exact congrArg frames.flatMap (funext (frameText_eq newline))
  have hlines : (frames.flatMap fun lines => lines ++ [[]]) ++ [[]] =
      [[]].intercalate (frames ++ [[], []]) := by
    have hends := flatMap_concat_eq_intercalate ([] : List α) (frames ++ [[]])
    rw [List.flatMap_append, List.append_assoc] at hends
    exact hends
  rw [htext, List.splitOn_intercalate newline _ (by simp), hlines]
  intro line hline
  rcases List.mem_append.1 hline with hmem | hlast
  · obtain ⟨lines, hlines, hin⟩ := List.mem_flatMap.1 hmem
    rcases List.mem_append.1 hin with hin | hblank
    · exact h lines hlines line hin
    · rw [List.mem_singleton.1 hblank]
      exact List.not_mem_nil
  · rw [List.mem_singleton.1 hlast]
    exact List.not_mem_nil

/-- Frames are found again in their text. -/
theorem framesOf_flatMap {frames : List (List (List α))} (hne : ∀ lines ∈ frames, lines ≠ [])
    (hlines : ∀ lines ∈ frames, ∀ line ∈ lines, line ≠ [] ∧ newline ∉ line) :
    framesOf newline (frames.flatMap (frameText newline)) = frames := by
  have hsplit : ([[]].intercalate (frames ++ [[], []])).splitOn [] = frames ++ [[], []] := by
    refine List.splitOn_intercalate [] (fun lines hmem => ?_) (by simp)
    rcases List.mem_append.1 hmem with hmem | hlast
    · exact fun hblank => (hlines lines hmem [] hblank).1 rfl
    · simp only [List.mem_cons, List.not_mem_nil, or_false, or_self] at hlast
      rw [hlast]
      exact List.not_mem_nil
  have hkeep : (frames.filter fun lines => !lines.isEmpty) = frames := by
    rw [List.filter_eq_self]
    intro lines hmem
    simpa using hne lines hmem
  rw [framesOf, splitOn_frames fun lines hmem line hin => (hlines lines hmem line hin).2, hsplit,
    List.filter_append, hkeep]
  exact List.append_nil frames

end Frames

end DealFinder.Math
