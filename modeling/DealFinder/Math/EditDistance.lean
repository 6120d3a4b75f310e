/-
# Edit distance

The least number of single elements to insert, delete or replace so that one list becomes another.
It has the recursion of Levenshtein on the heads of the lists (`isLeast_distance`): no edit brings
two lists nearer by more than one, and the recursion itself tells which edits to make.
-/

import Mathlib.Data.List.Basic
import Mathlib.Order.Bounds.Defs

namespace DealFinder.Math

universe u

variable {α : Type u}

/-! ## Edits -/

/-- One element is inserted, deleted or replaced. -/
inductive Edit : List α → List α → Prop
  | insert (before : List α) (x : α) (after : List α) :
      Edit (before ++ after) (before ++ x :: after)
  | delete (before : List α) (x : α) (after : List α) :
      Edit (before ++ x :: after) (before ++ after)
  | replace (before : List α) (x y : α) (after : List α) :
      Edit (before ++ x :: after) (before ++ y :: after)

/-- A number of edits, one after another. -/
inductive Edits : ℕ → List α → List α → Prop
  | done (l : List α) : Edits 0 l l
  | step {n : ℕ} {a b c : List α} (first : Edit a b) (rest : Edits n b c) : Edits (n + 1) a c

section Edits

variable {n : ℕ} {a b : List α}

theorem Edit.cons (x : α) (h : Edit a b) : Edit (x :: a) (x :: b) := by
  cases h with
  | insert before y after => exact .insert (x :: before) y after
  | delete before y after => exact .delete (x :: before) y after
  | replace before y z after => exact .replace (x :: before) y z after

theorem Edits.cons (x : α) (h : Edits n a b) : Edits n (x :: a) (x :: b) := by
  induction h with
  | done l => exact .done (x :: l)
  | step first _ ih => exact .step (first.cons x) ih

theorem Edit.reverse (h : Edit a b) : Edit a.reverse b.reverse := by
  cases h with
  | insert before x after =>
      simpa using Edit.insert after.reverse x before.reverse
  | delete before x after =>
      simpa using Edit.delete after.reverse x before.reverse
  | replace before x y after =>
      simpa using Edit.replace after.reverse x y before.reverse

theorem Edits.reverse (h : Edits n a b) : Edits n a.reverse b.reverse := by
  induction h with
  | done l => exact .done l.reverse
  | step first _ ih => exact .step first.reverse ih

/-- What is edited backwards is edited forwards. -/
theorem edits_reverse_iff : Edits n a.reverse b.reverse ↔ Edits n a b := by
  constructor
  · intro h
    simpa using h.reverse
  · exact Edits.reverse

/-- An edit changes the length by one at most. -/
theorem Edit.length_le (h : Edit a b) : a.length ≤ b.length + 1 ∧ b.length ≤ a.length + 1 := by
  cases h with
  | insert before x after =>
      simp only [List.length_append, List.length_cons]
      omega
  | delete before x after =>
      simp only [List.length_append, List.length_cons]
      omega
  | replace before x y after =>
      simp only [List.length_append, List.length_cons]
      omega

theorem Edits.length_le (h : Edits n a b) :
    a.length ≤ b.length + n ∧ b.length ≤ a.length + n := by
  induction h with
  | done l => exact ⟨Nat.le_refl _, Nat.le_refl _⟩
  | step first _ ih =>
      have hfirst := first.length_le
      omega

/-- Every element is inserted. -/
theorem edits_of_nil (b : List α) : Edits b.length [] b := by
  induction b with
  | nil => exact .done []
  | cons y b ih => exact .step (.insert [] y []) (ih.cons y)

/-- Every element is deleted. -/
theorem edits_to_nil (a : List α) : Edits a.length a [] := by
  induction a with
  | nil => exact .done []
  | cons x a ih => exact .step (.delete [] x a) ih

end Edits

/-! ## The distance -/

section Distance

variable [DecidableEq α]

/-- The edit distance of two lists. -/
def distance : List α → List α → ℕ
  | [], b => b.length
  | x :: a, [] => (x :: a).length
  | x :: a, y :: b =>
      min (min (distance a (y :: b) + 1) (distance (x :: a) b + 1))
        (distance a b + if x = y then 0 else 1)
termination_by a b => a.length + b.length

@[simp]
theorem distance_nil_left (b : List α) : distance [] b = b.length := by
  rw [distance]

@[simp]
theorem distance_nil_right (a : List α) : distance a [] = a.length := by
  cases a with
  | nil => rw [distance]
  | cons x a => rw [distance]

theorem distance_cons_cons (x y : α) (a b : List α) : distance (x :: a) (y :: b) =
    min (min (distance a (y :: b) + 1) (distance (x :: a) b + 1))
      (distance a b + if x = y then 0 else 1) := by
  rw [distance]

@[simp]
theorem distance_self (a : List α) : distance a a = 0 := by
  induction a with
  | nil => exact distance_nil_left []
  | cons x a ih =>
      rw [distance_cons_cons, ih, if_pos rfl]
      exact Nat.min_zero _

theorem distance_cons_left_le (x : α) (a b : List α) :
    distance (x :: a) b ≤ distance a b + 1 := by
  cases b with
  | nil => simp
  | cons y b =>
      rw [distance_cons_cons]
      omega

theorem distance_cons_right_le (y : α) (a b : List α) :
    distance a (y :: b) ≤ distance a b + 1 := by
  cases a with
  | nil => simp
  | cons x a =>
      rw [distance_cons_cons]
      omega

theorem distance_cons_cons_le (x y : α) (a b : List α) :
    distance (x :: a) (y :: b) ≤ distance a b + 1 := by
  rw [distance_cons_cons]
  split_ifs <;> omega

theorem le_distance_cons_left (x : α) (a b : List α) :
    distance a b ≤ distance (x :: a) b + 1 := by
  induction b with
  | nil =>
      simp only [distance_nil_right, List.length_cons]
      omega
  | cons y b ih =>
      have hright := distance_cons_right_le y a b
      rw [distance_cons_cons]
      split_ifs <;> omega

theorem distance_replace_le (x z : α) (a b : List α) :
    distance (x :: a) b ≤ distance (z :: a) b + 1 := by
  induction b with
  | nil => simp
  | cons y b ih =>
      have hdelete := distance_cons_left_le x a (y :: b)
      have hinsert := distance_cons_right_le y (x :: a) b
      have hreplace := distance_cons_cons_le x y a b
      rw [distance_cons_cons z]
      split_ifs <;> omega

/-- What holds of two lists for all others holds behind a common head. -/
theorem distance_cons_le_of_le (x : α) {a a' : List α}
    (h : ∀ b, distance a b ≤ distance a' b + 1) (b : List α) :
    distance (x :: a) b ≤ distance (x :: a') b + 1 := by
  induction b with
  | nil =>
      have hnil := h []
      simp only [distance_nil_right, List.length_cons] at hnil ⊢
      omega
  | cons y b ih =>
      have hhere := h (y :: b)
      have hrest := h b
      rw [distance_cons_cons, distance_cons_cons]
      split_ifs <;> omega

/-- An edit brings no list nearer by more than one. -/
theorem Edit.distance_le {a a' : List α} (h : Edit a a') (b : List α) :
    distance a b ≤ distance a' b + 1 := by
  have hbehind : ∀ (before : List α) {c c' : List α},
      (∀ b, distance c b ≤ distance c' b + 1) →
      ∀ b, distance (before ++ c) b ≤ distance (before ++ c') b + 1 := by
    intro before c c' hc
    induction before with
    | nil => exact hc
    | cons x before ih => exact distance_cons_le_of_le x ih
  cases h with
  | insert before x after => exact hbehind before (le_distance_cons_left x after) b
  | delete before x after => exact hbehind before (distance_cons_left_le x after) b
  | replace before x y after => exact hbehind before (distance_replace_le x y after) b

/-- No fewer edits than the distance lead from one list to the other. -/
theorem Edits.distance_le {n : ℕ} {a b : List α} (h : Edits n a b) : distance a b ≤ n := by
  induction h with
  | done l =>
      exact Nat.le_of_eq (distance_self l)
  | step first _ ih => exact Nat.le_trans (first.distance_le _) (Nat.succ_le_succ ih)

/-- As many edits as the distance lead from one list to the other. -/
theorem edits_distance (a b : List α) : Edits (distance a b) a b := by
  induction a, b using distance.induct with
  | case1 b =>
      rw [distance_nil_left]
      exact edits_of_nil b
  | case2 x a =>
      rw [distance_nil_right]
      exact edits_to_nil (x :: a)
  | case3 x a y b ihdelete ihinsert ihreplace =>
      have hdelete : Edits (distance a (y :: b) + 1) (x :: a) (y :: b) :=
        .step (.delete [] x a) ihdelete
      have hinsert : Edits (distance (x :: a) b + 1) (x :: a) (y :: b) :=
        .step (.insert [] y (x :: a)) (ihinsert.cons y)
      have hreplace : Edits (distance a b + if x = y then 0 else 1) (x :: a) (y :: b) := by
        split_ifs with heq
        · rw [heq]
          exact ihreplace.cons y
        · exact .step (.replace [] x y a) (ihreplace.cons y)
      -- whichever of the three is least, its edits are at hand
      rw [distance_cons_cons]
      rcases Nat.le_total (min (distance a (y :: b) + 1) (distance (x :: a) b + 1))
        (distance a b + if x = y then 0 else 1) with houter | houter
      · rw [Nat.min_eq_left houter]
        rcases Nat.le_total (distance a (y :: b) + 1) (distance (x :: a) b + 1) with
          hinner | hinner
        · rw [Nat.min_eq_left hinner]
          exact hdelete
        · rw [Nat.min_eq_right hinner]
          exact hinsert
      · rw [Nat.min_eq_right houter]
        exact hreplace

/-- The distance is the least number of edits that lead from one list to the other. -/
theorem isLeast_distance (a b : List α) : IsLeast {n | Edits n a b} (distance a b) := by
  constructor
  · exact edits_distance a b
  · intro n hn
    exact hn.distance_le

/-- Lists read backwards are as far apart as they are forwards. -/
theorem distance_reverse (a b : List α) : distance a.reverse b.reverse = distance a b := by
  have hforth := (edits_reverse_iff.1 (edits_distance a.reverse b.reverse)).distance_le
  have hback := (edits_distance a b).reverse.distance_le
  omega

/-- Lengths differ by no more than the lists do. -/
theorem length_le_length_add_distance (a b : List α) :
    a.length ≤ b.length + distance a b ∧ b.length ≤ a.length + distance a b :=
  (edits_distance a b).length_le

/-- The last elements of two lists are taken up as their first ones are. -/
theorem distance_concat_concat (x y : α) (a b : List α) :
    distance (a ++ [x]) (b ++ [y]) =
      min (min (distance a (b ++ [y]) + 1) (distance (a ++ [x]) b + 1))
        (distance a b + if x = y then 0 else 1) := by
  rw [← distance_reverse (a ++ [x]) (b ++ [y]), ← distance_reverse a (b ++ [y]),
    ← distance_reverse (a ++ [x]) b, ← distance_reverse a b]
  simp only [List.reverse_append, List.reverse_cons, List.reverse_nil, List.nil_append,
    List.cons_append]
  exact distance_cons_cons x y a.reverse b.reverse

end Distance

end DealFinder.Math
