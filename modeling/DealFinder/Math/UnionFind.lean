/-
# Union-find with path halving

A forest of parent pointers. Every node has a level below its parent's, so
climbing ends at a root; the number of unions bounds the levels. Halving a path
keeps every root, and a union moves the nodes under one root to another, so after
a list of unions two nodes share a root exactly when the unions connect them.
-/

import Mathlib.Logic.Function.Iterate
import Mathlib.Logic.Relation
import Mathlib.Algebra.Order.Monoid.Unbundled.Basic
import Mathlib.Data.Nat.Basic

namespace DealFinder.Math

universe u

/-- Levels that rise along parent pointers and stay below a height. -/
def Climbs {ν : Type u} (parent : ν → ν) (height : ℕ) (level : ν → ℕ) : Prop :=
  (∀ x, parent x ≠ x → level x < level (parent x)) ∧ ∀ x, level x ≤ height

/-- Parent pointers that lead to roots. -/
structure Forest (ν : Type u) where
  parent : ν → ν
  /-- No path is longer. -/
  height : ℕ
  climbs : ∃ level, Climbs parent height level

namespace Forest

variable {ν : Type u}

/-- Every node is a root. -/
def discrete (ν : Type u) : Forest ν where
  parent := id
  height := 0
  climbs := ⟨fun _ => 0, fun _ h => absurd rfl h, fun _ => le_rfl⟩

/-- The root above a node. -/
def root (f : Forest ν) (x : ν) : ν := f.parent^[f.height] x

/-! ## Roots -/

theorem parent_iterate {f : Forest ν} {level : ν → ℕ} (h : Climbs f.parent f.height level) (k : ℕ)
    (x : ν) :
    f.parent (f.parent^[k] x) = f.parent^[k] x ∨ level x + k ≤ level (f.parent^[k] x) := by
  induction k with
  | zero => exact Or.inr le_rfl
  | succ k ih =>
      rw [Function.iterate_succ_apply']
      by_cases hroot : f.parent (f.parent^[k] x) = f.parent^[k] x
      · exact Or.inl (congrArg f.parent hroot)
      · have hrise := h.1 _ hroot
        have hbelow := ih.resolve_left hroot
        exact Or.inr (by omega)

theorem parent_root (f : Forest ν) (x : ν) : f.parent (f.root x) = f.root x := by
  obtain ⟨level, hlevel⟩ := f.climbs
  by_contra hne
  have hfar := (parent_iterate hlevel f.height x).resolve_left hne
  have hrise := hlevel.1 _ hne
  have htop := hlevel.2 (f.parent (f.root x))
  simp only [root] at hrise htop
  omega

theorem root_parent (f : Forest ν) (x : ν) : f.root (f.parent x) = f.root x := by
  rw [root, ← Function.iterate_succ_apply, Function.iterate_succ_apply']
  exact f.parent_root x

theorem root_of_parent_eq {f : Forest ν} {x : ν} (h : f.parent x = x) : f.root x = x :=
  Function.iterate_fixed h f.height

/-- The root is the only node map that follows parents and keeps roots. -/
theorem root_unique {f : Forest ν} {g : ν → ν} (hstep : ∀ x, g (f.parent x) = g x)
    (hroot : ∀ x, f.parent x = x → g x = x) (x : ν) : f.root x = g x := by
  have hpath : ∀ k, g (f.parent^[k] x) = g x := by
    intro k
    induction k with
    | zero => rfl
    | succ k ih => rw [Function.iterate_succ_apply', hstep, ih]
  rw [← hpath f.height]
  exact (hroot _ (f.parent_root x)).symm

theorem discrete_root (x : ν) : (discrete ν).root x = x := rfl

variable [DecidableEq ν]

/-! ## Path halving -/

/-- The parent pointers after one halving step. -/
def halved (f : Forest ν) (x : ν) : ν → ν := Function.update f.parent x (f.parent (f.parent x))

theorem climbs_halved {f : Forest ν} {level : ν → ℕ} (h : Climbs f.parent f.height level) (x : ν) :
    Climbs (f.halved x) f.height level := by
  refine ⟨fun y hy => ?_, h.2⟩
  by_cases heq : y = x
  · subst heq
    rw [halved, Function.update_self] at hy ⊢
    have hne : f.parent y ≠ y := fun hroot => hy (by rw [hroot, hroot])
    have hfirst := h.1 y hne
    by_cases htop : f.parent (f.parent y) = f.parent y
    · rwa [htop]
    · exact hfirst.trans (h.1 _ htop)
  · rw [halved, Function.update_of_ne heq] at hy ⊢
    exact h.1 y hy

/-- Point a node at its grandparent. -/
def halve (f : Forest ν) (x : ν) : Forest ν where
  parent := f.halved x
  height := f.height
  climbs := by
    obtain ⟨level, hlevel⟩ := f.climbs
    exact ⟨level, climbs_halved hlevel x⟩

theorem parent_halve_self (f : Forest ν) (x : ν) :
    (f.halve x).parent x = f.parent (f.parent x) := Function.update_self ..

@[simp]
theorem root_halve (f : Forest ν) (x y : ν) : (f.halve x).root y = f.root y := by
  apply root_unique
  · intro z
    by_cases heq : z = x
    · rw [heq, parent_halve_self, root_parent, root_parent]
    · show f.root (Function.update f.parent x _ z) = _
      rw [Function.update_of_ne heq, root_parent]
  · intro z hz
    apply root_of_parent_eq
    by_cases heq : z = x
    · subst heq
      rw [parent_halve_self] at hz
      -- Two steps up and back would climb above itself.
      by_contra hne
      obtain ⟨level, hlevel⟩ := f.climbs
      have hup := hlevel.1 z hne
      have hback := hlevel.1 (f.parent z) fun htop => hne (htop ▸ hz)
      rw [hz] at hback
      omega
    · have hsame : (f.halve x).parent z = f.parent z := Function.update_of_ne heq ..
      rwa [hsame] at hz

/-- The loop of `find`. -/
def findLoop : ℕ → Forest ν → ν → ν × Forest ν
  | 0, f, x => (x, f)
  | fuel + 1, f, x =>
      if f.parent x = x then (x, f)
      else findLoop fuel (f.halve x) ((f.halve x).parent x)

/-- `find`: climb to the root, halving the path. -/
def find (f : Forest ν) (x : ν) : ν × Forest ν := findLoop f.height f x

/-- With as much fuel as there are levels above the node, the loop ends at the root. -/
theorem findLoop_spec {f : Forest ν} {level : ν → ℕ} (h : Climbs f.parent f.height level)
    {fuel : ℕ} {x : ν} (hfuel : f.height ≤ level x + fuel) :
    (findLoop fuel f x).1 = f.root x ∧ (findLoop fuel f x).2.root = f.root := by
  induction fuel generalizing f x with
  | zero =>
      refine ⟨?_, rfl⟩
      rw [root_of_parent_eq]
      · rfl
      · by_contra hne
        have hrise := h.1 x hne
        have htop := h.2 (f.parent x)
        omega
  | succ fuel ih =>
      rw [findLoop]
      by_cases hroot : f.parent x = x
      · rw [if_pos hroot, root_of_parent_eq hroot]
        exact ⟨rfl, rfl⟩
      · rw [if_neg hroot]
        have hclimbs := climbs_halved h x
        have hrise : level x < level ((f.halve x).parent x) := by
          apply hclimbs.1
          intro hback
          -- The halved parent is the node itself only when the node was a root.
          have hkeep := root_of_parent_eq (f := f.halve x) hback
          rw [root_halve] at hkeep
          exact hroot (hkeep ▸ f.parent_root x)
        have henough : (f.halve x).height ≤ level ((f.halve x).parent x) + fuel := by
          show f.height ≤ _
          omega
        have hrest := ih hclimbs henough
        refine ⟨hrest.1.trans ?_, hrest.2.trans (funext fun y => root_halve f x y)⟩
        rw [root_parent, root_halve]

theorem find_fst (f : Forest ν) (x : ν) : (f.find x).1 = f.root x := by
  obtain ⟨level, hlevel⟩ := f.climbs
  exact (findLoop_spec hlevel (by omega)).1

theorem root_find (f : Forest ν) (x : ν) : (f.find x).2.root = f.root := by
  obtain ⟨level, hlevel⟩ := f.climbs
  exact (findLoop_spec hlevel (by omega)).2

/-! ## Union -/

/-- Point one root at another. -/
def link (f : Forest ν) (a b : ν) (ha : f.parent a = a) (hb : f.parent b = b) : Forest ν where
  parent := Function.update f.parent a b
  height := f.height + 1
  climbs := by
    obtain ⟨level, hlevel⟩ := f.climbs
    refine ⟨Function.update level b (f.height + 1), fun x hx => ?_, fun x => ?_⟩
    · by_cases hxa : x = a
      · subst hxa
        rw [Function.update_self] at hx ⊢
        rw [Function.update_of_ne hx.symm, Function.update_self]
        exact Nat.lt_succ_of_le (hlevel.2 x)
      · rw [Function.update_of_ne hxa] at hx ⊢
        have hxb : x ≠ b := fun heq => hx (heq ▸ hb)
        rw [Function.update_of_ne hxb]
        by_cases hpb : f.parent x = b
        · rw [hpb, Function.update_self]
          exact Nat.lt_succ_of_le (hlevel.2 x)
        · rw [Function.update_of_ne hpb]
          exact hlevel.1 x hx
    · by_cases hxb : x = b
      · rw [hxb, Function.update_self]
      · rw [Function.update_of_ne hxb]
        exact (hlevel.2 x).trans (Nat.le_succ _)

theorem root_link (f : Forest ν) {a b : ν} (ha : f.parent a = a) (hb : f.parent b = b) (x : ν) :
    (f.link a b ha hb).root x = if f.root x = a then b else f.root x := by
  apply root_unique
  · intro y
    by_cases hya : y = a
    · subst hya
      have hparent : (f.link y b ha hb).parent y = b := Function.update_self ..
      rw [hparent, root_of_parent_eq ha, root_of_parent_eq hb, if_pos rfl, ite_self]
    · have hparent : (f.link a b ha hb).parent y = f.parent y := Function.update_of_ne hya ..
      rw [hparent, root_parent]
  · intro y hy
    by_cases hya : y = a
    · subst hya
      have hparent : (f.link y b ha hb).parent y = b := Function.update_self ..
      rw [root_of_parent_eq ha, if_pos rfl, ← hparent, hy]
    · have hparent : (f.link a b ha hb).parent y = f.parent y := Function.update_of_ne hya ..
      rw [hparent] at hy
      rw [root_of_parent_eq hy, if_neg hya]

/-- `parent[find(a)] = find(b)`: the right side is found first. -/
def union (f : Forest ν) (a b : ν) : Forest ν :=
  ((f.find b).2.find a).2.link ((f.find b).2.find a).1 (f.find b).1
    (by rw [find_fst, ← root_find, parent_root])
    (by rw [find_fst, ← root_find, ← root_find (f.find b).2 a, parent_root])

theorem root_union (f : Forest ν) (a b x : ν) :
    (f.union a b).root x = if f.root x = f.root a then f.root b else f.root x := by
  rw [union, root_link, root_find, root_find, find_fst, find_fst, root_find]

/-! ## Lists of unions -/

/-- Unite each pair, in order. -/
def unions (f : Forest ν) (pairs : List (ν × ν)) : Forest ν :=
  pairs.foldl (fun f pair => f.union pair.1 pair.2) f

/-- Unions act on the roots. -/
theorem root_unions_congr {f g : Forest ν} (h : f.root = g.root) (pairs : List (ν × ν)) :
    (f.unions pairs).root = (g.unions pairs).root := by
  induction pairs generalizing f g with
  | nil => exact h
  | cons pair rest ih =>
      have hunion : (f.union pair.1 pair.2).root = (g.union pair.1 pair.2).root := by
        funext x
        rw [root_union, root_union, h]
      exact ih hunion

theorem root_union_self (f : Forest ν) (a b : ν) : (f.union a b).root a = (f.union a b).root b := by
  rw [root_union, root_union, if_pos rfl]
  split_ifs <;> rfl

theorem root_union_mono (f : Forest ν) (a b : ν) {x y : ν} (h : f.root x = f.root y) :
    (f.union a b).root x = (f.union a b).root y := by
  rw [root_union, root_union, h]

/-- A union joins two classes and splits none. -/
theorem root_union_eq_iff (f : Forest ν) (a b x y : ν) :
    (f.union a b).root x = (f.union a b).root y ↔
      Relation.EqvGen (fun u v => f.root u = f.root v ∨ (u = a ∧ v = b)) x y := by
  constructor
  · intro h
    have hto : ∀ z, ∃ r, f.root r = (f.union a b).root z ∧
        Relation.EqvGen (fun u v => f.root u = f.root v ∨ (u = a ∧ v = b)) z r := by
      intro z
      rw [root_union]
      split_ifs with hz
      · exact ⟨b, rfl, .trans _ _ _ (.rel _ _ (Or.inl hz)) (.rel _ _ (Or.inr ⟨rfl, rfl⟩))⟩
      · exact ⟨z, rfl, .refl _⟩
    obtain ⟨r, hr, hxr⟩ := hto x
    obtain ⟨s, hs, hys⟩ := hto y
    exact hxr.trans _ _ _ (.trans _ _ _ (.rel _ _ (Or.inl (by rw [hr, hs, h]))) (.symm _ _ hys))
  · intro h
    induction h with
    | rel u v huv =>
        rcases huv with heq | ⟨rfl, rfl⟩
        · exact f.root_union_mono a b heq
        · exact f.root_union_self u v
    | refl => rfl
    | symm _ _ _ ih => exact ih.symm
    | trans _ _ _ _ _ ih ih' => exact ih.trans ih'

/-- After the unions, two nodes share a root when the pairs connect them. -/
theorem root_unions_eq_iff (f : Forest ν) (pairs : List (ν × ν)) (x y : ν) :
    (f.unions pairs).root x = (f.unions pairs).root y ↔
      Relation.EqvGen (fun u v => f.root u = f.root v ∨ (u, v) ∈ pairs) x y := by
  induction pairs generalizing f with
  | nil =>
      have hequiv : Equivalence fun u v => f.root u = f.root v :=
        ⟨fun _ => rfl, fun h => h.symm, fun h h' => h.trans h'⟩
      simp only [List.not_mem_nil, or_false]
      rw [hequiv.eqvGen_iff]
      rfl
  | cons pair rest ih =>
      obtain ⟨a, b⟩ := pair
      rw [unions, List.foldl_cons]
      refine (ih (f.union a b)).trans ⟨fun h => ?_, fun h => ?_⟩
      · refine Relation.EqvGen.eqvGen_le (fun u v huv => ?_) _ _ h
        rcases huv with hroot | hmem
        · apply ((f.root_union_eq_iff a b u v).1 hroot).mono
          intro s t hst
          exact hst.imp_right fun ⟨hs, ht⟩ => by rw [hs, ht]; exact List.mem_cons_self
        · exact .rel _ _ (Or.inr (List.mem_cons_of_mem _ hmem))
      · apply h.mono
        intro u v huv
        rcases huv with hroot | hmem
        · exact Or.inl (f.root_union_mono a b hroot)
        · rcases List.mem_cons.1 hmem with heq | hmem
          · obtain ⟨rfl, rfl⟩ := Prod.mk.inj heq
            exact Or.inl (f.root_union_self u v)
          · exact Or.inr hmem

end Forest

end DealFinder.Math
