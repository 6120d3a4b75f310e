/-
# Typosquatted dependencies

A suggested dependency one edit away from a known package is taken for a typosquat of it. The edit
distance is filled in row by row, and only the last row is kept: after some characters of the one
string, the row holds their distances to every beginning of the other (`prefixRow`).
-/

import DealFinder.Math.EditDistance
import Mathlib.Data.List.GetD
import Mathlib.Data.List.Infix
import Mathlib.Order.Bounds.Basic

namespace DealFinder.Safety

open DealFinder.Math

/-! ## The rolling rows -/

/-- The next row: its first cell is `i`, and every character of `b` adds one. -/
def editRow (prev : List ℕ) (i : ℕ) (ca : Char) (b : List Char) : List ℕ :=
  (b.zipIdx 1).foldl (fun cur (cb, j) =>
    cur ++ [min (min (prev.getD j 0 + 1) (cur.getD (j - 1) 0 + 1))
      (prev.getD (j - 1) 0 + if ca = cb then 0 else 1)]) [i]

/-- `_edit_distance`. -/
def editDistance (a b : String) : ℕ :=
  if a = b then 0
  else
    let prev := (a.toList.zipIdx 1).foldl (fun prev (ca, i) => editRow prev i ca b.toList)
      (List.range (b.toList.length + 1))
    prev.getD (prev.length - 1) 0

/-- `check_dependency`: the set of known packages is given by its members in some order. -/
def checkDependency (name : String) (knownGood : List String) : Option String :=
  if name ∈ knownGood then none
  else
    knownGood.find? fun good =>
      decide (name.toList.length ≤ good.toList.length + 1 ∧
        good.toList.length ≤ name.toList.length + 1) && editDistance name good == 1

/-! ## What the rows hold -/

/-- The distances from `p` to every beginning of `b`, the empty one first. -/
def prefixRow (p b : List Char) : List ℕ :=
  b.inits.map (distance p)

@[simp]
theorem length_prefixRow (p b : List Char) : (prefixRow p b).length = b.length + 1 := by
  rw [prefixRow, List.length_map, List.length_inits]

theorem prefixRow_concat (p q : List Char) (y : Char) :
    prefixRow p (q ++ [y]) = prefixRow p q ++ [distance p (q ++ [y])] := by
  rw [prefixRow, List.inits_append]
  simp [prefixRow]

/-- The cell at a beginning of the string holds the distance to it. -/
theorem getD_prefixRow (p q rest : List Char) :
    (prefixRow p (q ++ rest)).getD q.length 0 = distance p q := by
  have hin : q.length < (q ++ rest).inits.length := by
    rw [List.length_inits, List.length_append]
    omega
  rw [prefixRow, List.getD_eq_getElem _ _ (by simpa using hin), List.getElem_map,
    List.getElem_inits, List.take_left]

/-- Before any character, the row counts the characters to insert. -/
theorem prefixRow_nil (b : List Char) : prefixRow [] b = List.range (b.length + 1) := by
  induction b using List.reverseRecOn with
  | nil => simp [prefixRow]
  | append_singleton q y ih =>
      rw [prefixRow_concat, ih, distance_nil_left, List.length_append, List.length_singleton,
        List.range_succ (n := q.length + 1)]

/-- One step of the inner loop, from the cells for `q` to those for `q` and one more. -/
theorem editRow_step (p q rest : List Char) (ca cb : Char) :
    min (min ((prefixRow p (q ++ cb :: rest)).getD (q.length + 1) 0 + 1)
        ((prefixRow (p ++ [ca]) q).getD q.length 0 + 1))
      ((prefixRow p (q ++ cb :: rest)).getD q.length 0 + if ca = cb then 0 else 1) =
    distance (p ++ [ca]) (q ++ [cb]) := by
  have hup : (prefixRow p (q ++ cb :: rest)).getD (q.length + 1) 0 = distance p (q ++ [cb]) := by
    have hcell := getD_prefixRow p (q ++ [cb]) rest
    simpa using hcell
  have hleft : (prefixRow (p ++ [ca]) q).getD q.length 0 = distance (p ++ [ca]) q := by
    simpa using getD_prefixRow (p ++ [ca]) q []
  rw [hup, hleft, getD_prefixRow, distance_concat_concat]

/-- The inner loop has filled in the cells for what it has read of `b`. -/
theorem editRow_read (p q rest : List Char) (ca : Char) :
    (q.zipIdx 1).foldl (fun cur (cb, j) =>
      cur ++ [min (min ((prefixRow p (q ++ rest)).getD j 0 + 1) (cur.getD (j - 1) 0 + 1))
        ((prefixRow p (q ++ rest)).getD (j - 1) 0 + if ca = cb then 0 else 1)])
      [p.length + 1] = prefixRow (p ++ [ca]) q := by
  induction q using List.reverseRecOn generalizing rest with
  | nil => simp [prefixRow]
  | append_singleton q cb ih =>
      have hread := ih (cb :: rest)
      rw [List.append_assoc, List.singleton_append, List.zipIdx_append, List.foldl_append, hread,
        prefixRow_concat, ← editRow_step p q rest ca cb]
      simp [Nat.add_comm 1]

/-- A pass of the inner loop takes the row for `p` to the row for `p` and one more. -/
theorem editRow_prefixRow (p b : List Char) (ca : Char) :
    editRow (prefixRow p b) (p.length + 1) ca b = prefixRow (p ++ [ca]) b := by
  simpa [editRow] using editRow_read p b [] ca

/-- The outer loop keeps the row for what it has read of `a`. -/
theorem foldl_editRow (a b : List Char) :
    (a.zipIdx 1).foldl (fun prev (ca, i) => editRow prev i ca b) (List.range (b.length + 1)) =
      prefixRow a b := by
  induction a using List.reverseRecOn with
  | nil => exact (prefixRow_nil b).symm
  | append_singleton p ca ih =>
      rw [List.zipIdx_append, List.foldl_append, ih, ← editRow_prefixRow p b ca]
      simp [Nat.add_comm 1]

/-- `_edit_distance` computes the edit distance. -/
theorem editDistance_eq (a b : String) : editDistance a b = distance a.toList b.toList := by
  rw [editDistance]
  split_ifs with heq
  · rw [heq, distance_self]
  · have hlast := getD_prefixRow a.toList b.toList []
    simpa [foldl_editRow] using hlast

/-! ## The check -/

/-- The length filter lets through every package at distance one. -/
theorem near_of_editDistance_eq_one {name good : String} (h : editDistance name good = 1) :
    name.toList.length ≤ good.toList.length + 1 ∧
      good.toList.length ≤ name.toList.length + 1 := by
  have hlength := length_le_length_add_distance name.toList good.toList
  rw [← editDistance_eq, h] at hlength
  exact hlength

/-- The filter and the test together say that the distance is one. -/
theorem check_eq_true_iff (name good : String) :
    (decide (name.toList.length ≤ good.toList.length + 1 ∧
      good.toList.length ≤ name.toList.length + 1) && editDistance name good == 1) = true ↔
      editDistance name good = 1 := by
  rw [Bool.and_eq_true, decide_eq_true_eq, beq_iff_eq]
  constructor
  · exact And.right
  · intro h
    exact ⟨near_of_editDistance_eq_one h, h⟩

/-- One edit is the least that leads from one string to another exactly at distance one. -/
theorem isLeast_one_iff (a b : String) :
    IsLeast {n | Edits n a.toList b.toList} 1 ↔ editDistance a b = 1 := by
  rw [editDistance_eq]
  constructor
  · intro h
    exact (isLeast_distance a.toList b.toList).unique h
  · intro h
    rw [← h]
    exact isLeast_distance a.toList b.toList

/-- The distance is the least number of edits, and the check finds a known package one edit away
wherever the name is not known itself and there is one. -/
theorem checkDependency_exact :
    (∀ a b : String, IsLeast {n | Edits n a.toList b.toList} (editDistance a b)) ∧
    ∀ (name : String) (knownGood : List String),
      ((name ∉ knownGood ∧ ∃ good ∈ knownGood, IsLeast {n | Edits n name.toList good.toList} 1) →
        ∃ good ∈ knownGood, checkDependency name knownGood = some good ∧
          IsLeast {n | Edits n name.toList good.toList} 1) ∧
      (¬(name ∉ knownGood ∧
          ∃ good ∈ knownGood, IsLeast {n | Edits n name.toList good.toList} 1) →
        checkDependency name knownGood = none) := by
  constructor
  · intro a b
    rw [editDistance_eq]
    exact isLeast_distance a.toList b.toList
  · intro name knownGood
    simp only [isLeast_one_iff]
    constructor
    · rintro ⟨hunknown, good, hgood, hnear⟩
      rw [checkDependency, if_neg hunknown]
      cases hfind : knownGood.find? _ with
      | none =>
          have hfar := List.find?_eq_none.1 hfind good hgood
          exact absurd ((check_eq_true_iff name good).2 hnear) hfar
      | some found =>
          have hfound := List.find?_some hfind
          exact ⟨found, List.mem_of_find?_eq_some hfind, rfl,
            (check_eq_true_iff name found).1 hfound⟩
    · intro hnone
      rw [checkDependency]
      split_ifs with hknown
      · rfl
      · rw [List.find?_eq_none]
        intro good hgood hcheck
        exact hnone ⟨hknown, good, hgood, (check_eq_true_iff name good).1 hcheck⟩

example : checkDependency "reqests" ["numpy", "requests"] = some "requests" := by decide +kernel

end DealFinder.Safety
