/-
# Packing into a budget

Things are taken in turn: one that fits into what is left of a budget is included, any other is
dropped, and the next one has its chance. The included things are a first part of the list, and
the longest that fits, exactly where no thing fits behind the first misfit
(`firstPart_pack_iff`).
-/

import Mathlib.Algebra.Order.Ring.Int
import Mathlib.Data.List.Induction

namespace DealFinder.Math

universe u

variable {α : Type u}

/-- What has been included and dropped, and how much of the budget is used. -/
structure Packing (α : Type u) where
  included : List α
  dropped : List α
  used : ℕ

section Pack

variable (cost : α → ℕ) (budget : ℤ)

/-- What a list of things costs together. -/
def totalCost : List α → ℕ
  | [] => 0
  | x :: l => cost x + totalCost l

/-- One thing is included if it fits, and dropped if it does not. -/
def Packing.place (p : Packing α) (x : α) : Packing α :=
  if ((p.used + cost x : ℕ) : ℤ) ≤ budget then
    { p with included := p.included ++ [x], used := p.used + cost x }
  else { p with dropped := p.dropped ++ [x] }

/-- All things, one after another. -/
def pack (items : List α) : Packing α :=
  items.foldl (Packing.place cost budget) ⟨[], [], 0⟩

/-- The included things are the first ones, the dropped ones all others, and no longer first part
of the list would fit. -/
structure Packing.FirstPart (items : List α) (p : Packing α) : Prop where
  cut : p.included ++ p.dropped = items
  longest : ∀ front, front <+: items → (totalCost cost front : ℤ) ≤ budget → front <+: p.included

/-- Behind the first misfit nothing fits. -/
def NothingFitsBehind (items : List α) : Prop :=
  ∀ front misfit rest, items = front ++ misfit :: rest → (totalCost cost front : ℤ) ≤ budget →
    budget < ((totalCost cost front + cost misfit : ℕ) : ℤ) →
      ∀ x ∈ rest, budget < ((totalCost cost front + cost x : ℕ) : ℤ)

/-! ## One thing -/

section Place

variable {cost budget} {p : Packing α} {x : α}

theorem Packing.place_of_fits (h : ((p.used + cost x : ℕ) : ℤ) ≤ budget) :
    p.place cost budget x =
      { p with included := p.included ++ [x], used := p.used + cost x } :=
  if_pos h

theorem Packing.place_of_misfit (h : budget < ((p.used + cost x : ℕ) : ℤ)) :
    p.place cost budget x = { p with dropped := p.dropped ++ [x] } :=
  if_neg (not_le.2 h)

end Place

/-! ## Costs -/

theorem totalCost_append (l m : List α) :
    totalCost cost (l ++ m) = totalCost cost l + totalCost cost m := by
  induction l with
  | nil => simp [totalCost]
  | cons x l ih =>
      rw [List.cons_append, totalCost, totalCost, ih, Nat.add_assoc]

theorem totalCost_concat (l : List α) (x : α) :
    totalCost cost (l ++ [x]) = totalCost cost l + cost x := by
  rw [totalCost_append, totalCost, totalCost, Nat.add_zero]

/-! ## Whole runs -/

/-- The books are kept: what is used is what the included things cost, within the budget, and
every thing is either included or dropped, in its order. -/
structure Packing.Kept (items : List α) (p : Packing α) : Prop where
  used_eq : p.used = totalCost cost p.included
  within : (p.used : ℤ) ≤ budget
  parted : ∃ fits : List Bool, fits.length = items.length ∧
    p.included = (items.zip fits).filterMap (fun t => if t.2 then some t.1 else none) ∧
    p.dropped = (items.zip fits).filterMap (fun t => if t.2 then none else some t.1)

variable {cost budget}

theorem Packing.Kept.place {items : List α} {p : Packing α} (h : p.Kept cost budget items) (x : α) :
    (p.place cost budget x).Kept cost budget (items ++ [x]) := by
  obtain ⟨hused, hwithin, fits, hlength, hincluded, hdropped⟩ := h
  rcases le_or_gt ((p.used + cost x : ℕ) : ℤ) budget with hfits | hmisfit
  · rw [place_of_fits hfits]
    have hparted : ∃ fits : List Bool, fits.length = (items ++ [x]).length ∧
        p.included ++ [x] =
          ((items ++ [x]).zip fits).filterMap (fun t => if t.2 then some t.1 else none) ∧
        p.dropped =
          ((items ++ [x]).zip fits).filterMap (fun t => if t.2 then none else some t.1) := by
      exact ⟨fits ++ [true], by simp [hlength], by simp [List.zip_append hlength.symm, hincluded],
        by simp [List.zip_append hlength.symm, hdropped]⟩
    exact ⟨by rw [totalCost_concat, hused], hfits, hparted⟩
  · rw [place_of_misfit hmisfit]
    have hparted : ∃ fits : List Bool, fits.length = (items ++ [x]).length ∧
        p.included =
          ((items ++ [x]).zip fits).filterMap (fun t => if t.2 then some t.1 else none) ∧
        p.dropped ++ [x] =
          ((items ++ [x]).zip fits).filterMap (fun t => if t.2 then none else some t.1) := by
      exact ⟨fits ++ [false], by simp [hlength], by simp [List.zip_append hlength.symm, hincluded],
        by simp [List.zip_append hlength.symm, hdropped]⟩
    exact ⟨hused, hwithin, hparted⟩

variable (cost) in
/-- Whatever the costs, the books are kept to the end. -/
theorem kept_pack (hbudget : 0 ≤ budget) (items : List α) :
    (pack cost budget items).Kept cost budget items := by
  induction items using List.reverseRecOn with
  | nil => exact ⟨rfl, hbudget, [], rfl, rfl, rfl⟩
  | append_singleton items x ih =>
      rw [pack, List.foldl_append]
      exact ih.place x

/-- What fits altogether is included. -/
theorem foldl_place_of_fit {p : Packing α} {front : List α}
    (h : ((p.used + totalCost cost front : ℕ) : ℤ) ≤ budget) :
    front.foldl (Packing.place cost budget) p =
      { p with included := p.included ++ front, used := p.used + totalCost cost front } := by
  induction front generalizing p with
  | nil => simp [totalCost]
  | cons x front ih =>
      rw [totalCost] at h
      have hx : ((p.used + cost x : ℕ) : ℤ) ≤ budget := by omega
      rw [List.foldl_cons, Packing.place_of_fits hx, ih (by dsimp only; omega)]
      simp [totalCost, Nat.add_assoc]

/-- Where nothing fits, everything is dropped. -/
theorem foldl_place_of_misfits {p : Packing α} {rest : List α}
    (h : ∀ x ∈ rest, budget < ((p.used + cost x : ℕ) : ℤ)) :
    rest.foldl (Packing.place cost budget) p = { p with dropped := p.dropped ++ rest } := by
  induction rest generalizing p with
  | nil => simp
  | cons x rest ih =>
      have hx := h x List.mem_cons_self
      have hrest : ∀ y ∈ rest, budget < ((p.used + cost y : ℕ) : ℤ) :=
        fun y hy => h y (List.mem_cons_of_mem x hy)
      have hall := ih (p := { p with dropped := p.dropped ++ [x] }) hrest
      rw [List.foldl_cons, Packing.place_of_misfit hx, hall]
      simp

variable (cost budget) in
/-- What is included stays included. -/
theorem included_prefix_foldl (p : Packing α) (items : List α) :
    p.included <+: (items.foldl (Packing.place cost budget) p).included := by
  induction items generalizing p with
  | nil => exact List.prefix_rfl
  | cons x items ih =>
      rw [List.foldl_cons]
      rcases le_or_gt ((p.used + cost x : ℕ) : ℤ) budget with hfits | hmisfit
      · have hmore := ih (p.place cost budget x)
        rw [Packing.place_of_fits hfits] at hmore ⊢
        exact (List.prefix_append _ _).trans hmore
      · have hsame := ih (p.place cost budget x)
        rw [Packing.place_of_misfit hmisfit] at hsame ⊢
        exact hsame

/-- Where nothing more is included, nothing fits. -/
theorem misfits_of_foldl_included_eq {p : Packing α} {rest : List α}
    (h : (rest.foldl (Packing.place cost budget) p).included = p.included) :
    ∀ x ∈ rest, budget < ((p.used + cost x : ℕ) : ℤ) := by
  induction rest generalizing p with
  | nil =>
      intro x hx
      cases hx
  | cons y rest ih =>
      rw [List.foldl_cons] at h
      rcases le_or_gt ((p.used + cost y : ℕ) : ℤ) budget with hfits | hmisfit
      · -- a thing that fits would have made the list longer
        have hlonger := (included_prefix_foldl cost budget (p.place cost budget y) rest).length_le
        rw [h, Packing.place_of_fits hfits, List.length_append, List.length_singleton] at hlonger
        omega
      · rw [Packing.place_of_misfit hmisfit] at h
        intro x hx
        rcases List.mem_cons.1 hx with rfl | hx
        · exact hmisfit
        · exact ih h x hx

variable (cost) in
/-- Either everything fits, or there is a first misfit. -/
theorem fits_or_first_misfit (items : List α) (used : ℕ) (h : (used : ℤ) ≤ budget) :
    ((used + totalCost cost items : ℕ) : ℤ) ≤ budget ∨
      ∃ front misfit rest, items = front ++ misfit :: rest ∧
        ((used + totalCost cost front : ℕ) : ℤ) ≤ budget ∧
        budget < ((used + totalCost cost front + cost misfit : ℕ) : ℤ) := by
  induction items generalizing used with
  | nil => exact .inl h
  | cons x items ih =>
      rcases le_or_gt ((used + cost x : ℕ) : ℤ) budget with hfits | hmisfit
      · rcases ih (used + cost x) hfits with hall | ⟨front, misfit, rest, rfl, hfront, hmisfit⟩
        · left
          rw [totalCost]
          omega
        · right
          refine ⟨x :: front, misfit, rest, rfl, ?_, ?_⟩
          · rw [totalCost]
            omega
          · rw [totalCost]
            omega
      · right
        exact ⟨[], x, items, rfl, h, hmisfit⟩

/-- Up to the first misfit the run is known. -/
theorem pack_of_first_misfit (rest : List α) {front : List α} {misfit : α}
    (hfront : (totalCost cost front : ℤ) ≤ budget)
    (hmisfit : budget < ((totalCost cost front + cost misfit : ℕ) : ℤ)) :
    pack cost budget (front ++ misfit :: rest) =
      rest.foldl (Packing.place cost budget) ⟨front, [misfit], totalCost cost front⟩ := by
  have hfit : (((⟨[], [], 0⟩ : Packing α).used + totalCost cost front : ℕ) : ℤ) ≤ budget := by
    simpa using hfront
  rw [pack, List.foldl_append, foldl_place_of_fit hfit, List.foldl_cons,
    Packing.place_of_misfit (by simpa using hmisfit)]
  simp

/-! ## The first part -/

/-- A first part that fits cannot reach beyond a misfit. -/
theorem prefix_front_of_fits {front rest part : List α} {misfit : α}
    (hpart : part <+: front ++ misfit :: rest) (hfits : (totalCost cost part : ℤ) ≤ budget)
    (hmisfit : budget < ((totalCost cost front + cost misfit : ℕ) : ℤ)) : part <+: front := by
  rcases List.prefix_or_prefix_of_prefix hpart (List.prefix_append front (misfit :: rest)) with
    hshort | ⟨more, rfl⟩
  · exact hshort
  · cases more with
    | nil =>
        exact ⟨[], by rw [List.append_nil, List.append_nil]⟩
    | cons x more =>
        rw [List.prefix_append_right_inj] at hpart
        have hsame : x = misfit := (List.cons_prefix_cons.1 hpart).1
        rw [hsame, totalCost_append, totalCost] at hfits
        omega

/-- The packing is the longest first part exactly where nothing fits behind the first misfit. -/
theorem firstPart_pack_iff (hbudget : 0 ≤ budget) (items : List α) :
    (pack cost budget items).FirstPart cost budget items ↔ NothingFitsBehind cost budget items := by
  constructor
  · rintro ⟨hcut, -⟩ front misfit rest rfl hfront hmisfit
    have hrun := pack_of_first_misfit rest hfront hmisfit
    have hkept := kept_pack cost hbudget (front ++ misfit :: rest)
    rw [hrun] at hcut hkept
    have hcost := hkept.within
    rw [hkept.used_eq] at hcost
    have hupper := prefix_front_of_fits ⟨_, hcut⟩ hcost hmisfit
    have hlower := included_prefix_foldl cost budget
      ⟨front, [misfit], totalCost cost front⟩ rest
    have hsame := hupper.eq_of_length_le hlower.length_le
    exact misfits_of_foldl_included_eq hsame
  · intro hnothing
    rcases fits_or_first_misfit cost items 0 hbudget with
      hall | ⟨front, misfit, rest, rfl, hfront, hmisfit⟩
    · have hrun : pack cost budget items = ⟨items, [], totalCost cost items⟩ := by
        have hfit := foldl_place_of_fit (p := ⟨[], [], 0⟩) hall
        simpa [pack] using hfit
      rw [hrun]
      exact ⟨List.append_nil items, fun front hfront _ => hfront⟩
    · rw [Nat.zero_add] at hfront hmisfit
      have hrest := hnothing front misfit rest rfl hfront hmisfit
      have hrun : pack cost budget (front ++ misfit :: rest) =
          ⟨front, misfit :: rest, totalCost cost front⟩ := by
        rw [pack_of_first_misfit rest hfront hmisfit, foldl_place_of_misfits hrest]
        rfl
      rw [hrun]
      exact ⟨rfl, fun part hpart hfits => prefix_front_of_fits hpart hfits hmisfit⟩

end Pack

end DealFinder.Math
