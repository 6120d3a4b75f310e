/-
# Parent pointers in an array

Union-find on an array of parents, with loops that have fuel and fail on an index out of
range. An array that represents a forest keeps to it: with more fuel than the forest is
high every loop ends, `findIn` at the root of its node, and no index is out of range.
-/

import DealFinder.Math.UnionFind

namespace DealFinder.Math

/-- Climb to the root while halving the path. -/
def findIn : ℕ → List ℕ → ℕ → Option (ℕ × List ℕ)
  | 0, _, _ => none
  | fuel + 1, parent, x =>
      match parent[x]? with
      | none => none
      | some above =>
          if above = x then some (x, parent)
          else
            match parent[above]? with
            | none => none
            | some grandparent => findIn fuel (parent.set x grandparent) grandparent

/-- Point the root of one node at the root of another, which is found first. -/
def unionIn (fuel : ℕ) (parent : List ℕ) (a b : ℕ) : Option (List ℕ) :=
  match findIn fuel parent b with
  | none => none
  | some (rootB, parent) =>
      match findIn fuel parent a with
      | none => none
      | some (rootA, parent) => some (parent.set rootA rootB)

/-- The array holds the parents of the first `n` nodes, which are among them. -/
def Represents (n : ℕ) (parent : List ℕ) (f : Forest ℕ) : Prop :=
  ∀ x < n, parent[x]? = some (f.parent x) ∧ f.parent x < n

theorem represents_range (n : ℕ) : Represents n (List.range n) (Forest.discrete ℕ) :=
  fun _ hx => ⟨List.getElem?_range hx, hx⟩

namespace Represents

variable {n : ℕ} {parent : List ℕ} {f : Forest ℕ}

theorem lt_length (h : Represents n parent f) {x : ℕ} (hx : x < n) : x < parent.length :=
  (List.getElem?_eq_some_iff.1 (h x hx).1).1

theorem root_lt (h : Represents n parent f) {x : ℕ} (hx : x < n) : f.root x < n := by
  have hpath : ∀ k, f.parent^[k] x < n := by
    intro k
    induction k with
    | zero => exact hx
    | succ k ih =>
        rw [Function.iterate_succ_apply']
        exact (h _ ih).2
  exact hpath f.height

/-- Assigning to a place of the array changes one parent. -/
theorem set (h : Represents n parent f) {x above : ℕ} (hx : x < n) (habove : above < n)
    {g : Forest ℕ} (hg : g.parent = Function.update f.parent x above) :
    Represents n (parent.set x above) g := by
  intro y hy
  rw [hg]
  by_cases heq : y = x
  · subst heq
    rw [Function.update_self]
    exact ⟨List.getElem?_set_self (h.lt_length hx), habove⟩
  · rw [Function.update_of_ne heq, List.getElem?_set_ne (Ne.symm heq)]
    exact h y hy

/-- With fuel for every level above the node, the loop ends at its root. -/
theorem findIn_of_climbs (h : Represents n parent f) {level : ℕ → ℕ}
    (hlevel : Climbs f.parent f.height level) {fuel x : ℕ} (hx : x < n)
    (hfuel : f.height ≤ level x + fuel) :
    ∃ parent' f', findIn (fuel + 1) parent x = some (f.root x, parent') ∧
      Represents n parent' f' ∧ f'.root = f.root ∧ f'.height = f.height := by
  induction fuel generalizing parent f x with
  | zero =>
      have hroot : f.parent x = x := by
        by_contra hne
        have hrise := hlevel.1 x hne
        have htop := hlevel.2 (f.parent x)
        omega
      refine ⟨parent, f, ?_, h, rfl, rfl⟩
      rw [findIn, (h x hx).1]
      simp only [hroot, if_true, Forest.root_of_parent_eq hroot]
  | succ fuel ih =>
      rw [findIn, (h x hx).1]
      by_cases hroot : f.parent x = x
      · refine ⟨parent, f, ?_, h, rfl, rfl⟩
        simp only [hroot, if_true, Forest.root_of_parent_eq hroot]
      · have habove := (h _ (h x hx).2)
        simp only [if_neg hroot, habove.1]
        have hhalved : Represents n (parent.set x (f.parent (f.parent x))) (f.halve x) :=
          h.set hx habove.2 rfl
        have hrise : level x < level (f.parent (f.parent x)) := by
          have hfirst := hlevel.1 x hroot
          by_cases htop : f.parent (f.parent x) = f.parent x
          · rwa [htop]
          · exact hfirst.trans (hlevel.1 _ htop)
        obtain ⟨parent', f', hfind, hrep, hroots, hheight⟩ :=
          ih hhalved (Forest.climbs_halved hlevel x) habove.2
            (by change f.height ≤ _; omega)
        refine ⟨parent', f', ?_, hrep, hroots.trans (funext fun y => Forest.root_halve f x y),
          hheight⟩
        rw [hfind, Forest.root_halve, Forest.root_parent, Forest.root_parent]

theorem findIn_spec (h : Represents n parent f) {fuel x : ℕ} (hx : x < n)
    (hfuel : f.height < fuel) :
    ∃ parent' f', findIn fuel parent x = some (f.root x, parent') ∧
      Represents n parent' f' ∧ f'.root = f.root ∧ f'.height = f.height := by
  obtain ⟨level, hlevel⟩ := f.climbs
  obtain ⟨fuel, rfl⟩ : ∃ k, fuel = k + 1 := ⟨fuel - 1, by omega⟩
  exact h.findIn_of_climbs hlevel hx (by omega)

/-- A union in the array is one of the forest. -/
theorem unionIn_spec (h : Represents n parent f) {fuel a b : ℕ} (ha : a < n) (hb : b < n)
    (hfuel : f.height < fuel) :
    ∃ parent' f', unionIn fuel parent a b = some parent' ∧ Represents n parent' f' ∧
      f'.root = (f.union a b).root ∧ f'.height = f.height + 1 := by
  obtain ⟨parent₁, f₁, hfind₁, hrep₁, hroot₁, hheight₁⟩ := h.findIn_spec hb hfuel
  obtain ⟨parent₂, f₂, hfind₂, hrep₂, hroot₂, hheight₂⟩ :=
    hrep₁.findIn_spec ha (hheight₁ ▸ hfuel)
  have hroots : f₂.root = f.root := hroot₂.trans hroot₁
  have htopA : f₂.parent (f.root a) = f.root a := by rw [← hroots, Forest.parent_root]
  have htopB : f₂.parent (f.root b) = f.root b := by rw [← hroots, Forest.parent_root]
  refine ⟨parent₂.set (f.root a) (f.root b), f₂.link (f.root a) (f.root b) htopA htopB, ?_, ?_,
    ?_, ?_⟩
  · rw [unionIn, hfind₁]
    simp only [hfind₂, hroot₁]
  · exact hrep₂.set (h.root_lt ha) (h.root_lt hb) rfl
  · funext x
    rw [Forest.root_link, Forest.root_union, hroots]
  · change f₂.height + 1 = _
    rw [hheight₂, hheight₁]

end Represents

end DealFinder.Math
