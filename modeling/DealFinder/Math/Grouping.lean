/-
# Groups and their cheapest members

A list is split by a key into groups, in the order of their first elements, and
each group keeps its cheapest member, the first of equals. A dictionary filled
element by element computes just this.

Removing elements from the list commutes with the split when in every group that
has a member to keep, the first and the cheapest member are kept
(`map_cheapest_filter`). A stable sort commutes with removal always.
-/

import DealFinder.Math.Dict
import Mathlib.Data.List.Induction
import Mathlib.Data.List.Sort
import Mathlib.Order.Lattice

namespace DealFinder.Math

universe u v w

variable {α : Type u} {κ : Type v} {β : Type w}

/-! ## The cheapest member -/

section Cheapest

variable [LinearOrder β] (cost : α → β)

/-- Keep the best so far unless the next is strictly cheaper. -/
def cheaper (best next : α) : α := if cost next < cost best then next else best

/-- The cheapest member of a group, the first of equals. -/
def cheapest (group : α × List α) : α := group.2.foldl (cheaper cost) group.1

/-- Where the cheapest stands: before it all is dearer, after it nothing is cheaper. -/
def IsCheapest (l : List α) (c : α) : Prop :=
  ∃ before after, l = before ++ c :: after ∧ (∀ x ∈ before, cost c < cost x) ∧
    ∀ x ∈ after, cost c ≤ cost x

theorem isCheapest_cheapest (group : α × List α) :
    IsCheapest cost (group.1 :: group.2) (cheapest cost group) := by
  obtain ⟨first, rest⟩ := group
  induction rest using List.reverseRecOn with
  | nil => exact ⟨[], [], rfl, by simp, by simp⟩
  | append_singleton rest x ih =>
      obtain ⟨before, after, hsplit, hbefore, hafter⟩ := ih
      simp only [cheapest, List.foldl_append, List.foldl_cons, List.foldl_nil]
        at hsplit hbefore hafter ⊢
      generalize rest.foldl (cheaper cost) first = best at hsplit hbefore hafter ⊢
      unfold cheaper
      split_ifs with hx
      · -- The last element is strictly cheaper than everything before it.
        refine ⟨first :: rest, [], rfl, fun y hy => ?_, by simp⟩
        rw [hsplit] at hy
        rcases List.mem_append.1 hy with hy | hy
        · exact hx.trans (hbefore y hy)
        · rcases List.mem_cons.1 hy with rfl | hy
          · exact hx
          · exact hx.trans_le (hafter y hy)
      · refine ⟨before, after ++ [x], ?_, hbefore, fun y hy => ?_⟩
        · rw [← List.cons_append, hsplit, List.append_assoc, List.cons_append]
        · rcases List.mem_append.1 hy with hy | hy
          · exact hafter y hy
          · rw [List.mem_singleton.1 hy]
            exact not_lt.1 hx

variable {cost}

theorem IsCheapest.mem {l : List α} {c : α} (h : IsCheapest cost l c) : c ∈ l := by
  obtain ⟨before, after, rfl, -, -⟩ := h
  simp

theorem IsCheapest.unique {l : List α} {c d : α} (hc : IsCheapest cost l c)
    (hd : IsCheapest cost l d) : c = d := by
  obtain ⟨before, after, hl, hbefore, hafter⟩ := hc
  obtain ⟨before', after', hl', hbefore', hafter'⟩ := hd
  rw [hl] at hl'
  -- Whichever stands first is not dearer than the other, so it is not before it.
  rcases List.append_eq_append_iff.1 hl' with ⟨mid, hmid, hrest⟩ | ⟨mid, hmid, hrest⟩
  · cases mid with
    | nil => exact (List.cons.inj hrest).1
    | cons x mid =>
        obtain ⟨rfl, rfl⟩ := List.cons.inj hrest
        have hdear := hbefore' c (by rw [hmid]; simp)
        have hcheap := hafter d (by simp)
        exact absurd hdear (not_lt.2 hcheap)
  · cases mid with
    | nil => exact (List.cons.inj hrest).1.symm
    | cons x mid =>
        obtain ⟨rfl, rfl⟩ := List.cons.inj hrest
        have hdear := hbefore d (by rw [hmid]; simp)
        have hcheap := hafter' c (by simp)
        exact absurd hdear (not_lt.2 hcheap)

theorem IsCheapest.filter {l : List α} {c : α} {p : α → Bool} (h : IsCheapest cost l c)
    (hc : p c = true) : IsCheapest cost (l.filter p) c := by
  obtain ⟨before, after, rfl, hbefore, hafter⟩ := h
  refine ⟨before.filter p, after.filter p, ?_, fun x hx => ?_, fun x hx => ?_⟩
  · rw [List.filter_append, List.filter_cons_of_pos hc]
  · exact hbefore x (List.mem_filter.1 hx).1
  · exact hafter x (List.mem_filter.1 hx).1

theorem cheapest_mem (group : α × List α) : cheapest cost group ∈ group.1 :: group.2 :=
  (isCheapest_cheapest cost group).mem

theorem cost_cheapest_le (cost : α → β) {group : α × List α} {x : α}
    (h : x ∈ group.1 :: group.2) : cost (cheapest cost group) ≤ cost x := by
  obtain ⟨before, after, hsplit, hbefore, hafter⟩ := isCheapest_cheapest cost group
  rw [hsplit] at h
  rcases List.mem_append.1 h with h | h
  · exact (hbefore x h).le
  · rcases List.mem_cons.1 h with rfl | h
    · exact le_rfl
    · exact hafter x h

/-- In a sorted group the cheapest comes before the others of its cost. -/
theorem cheapest_lt_or_first (cost : α → β) {rel : α → α → Prop} {group : α × List α}
    (hsorted : (group.1 :: group.2).Pairwise rel) {x : α} (h : x ∈ group.1 :: group.2) :
    cost (cheapest cost group) < cost x ∨
      cost (cheapest cost group) = cost x ∧
        (cheapest cost group = x ∨ rel (cheapest cost group) x) := by
  obtain ⟨before, after, hsplit, hbefore, hafter⟩ := isCheapest_cheapest cost group
  rw [hsplit] at h hsorted
  rcases List.mem_append.1 h with h | h
  · exact Or.inl (hbefore x h)
  · rcases List.mem_cons.1 h with rfl | h
    · exact Or.inr ⟨rfl, Or.inl rfl⟩
    · have hlater := (List.pairwise_append.1 hsorted).2.1
      have hrel := (List.pairwise_cons.1 hlater).1 x h
      exact (hafter x h).lt_or_eq.imp id fun heq => ⟨heq, Or.inr hrel⟩

/-- What the cheapest costs depends on the members alone. -/
theorem cost_cheapest_congr {group group' : α × List α}
    (h : ∀ x, x ∈ group.1 :: group.2 ↔ x ∈ group'.1 :: group'.2) :
    cost (cheapest cost group) = cost (cheapest cost group') :=
  le_antisymm (cost_cheapest_le cost ((h _).2 (cheapest_mem group')))
    (cost_cheapest_le cost ((h _).1 (cheapest_mem group)))

/-- The cheapest of images is the image of the cheapest. -/
theorem cheapest_map {γ : Type*} (cost : α → β) (f : γ → α) (group : γ × List γ) :
    cheapest cost (f group.1, group.2.map f) = f (cheapest (fun x => cost (f x)) group) := by
  obtain ⟨first, rest⟩ := group
  induction rest using List.reverseRecOn with
  | nil => rfl
  | append_singleton rest x ih =>
      simp only [cheapest, List.map_append, List.foldl_append, List.map_cons, List.map_nil,
        List.foldl_cons, List.foldl_nil] at ih ⊢
      rw [ih, cheaper, cheaper]
      split_ifs
      · rfl
      · rfl

/-- Dropping other members of a group leaves its cheapest. -/
theorem cheapest_filter {first : α} {rest : List α} {p : α → Bool} (hfirst : p first = true)
    (hcheapest : p (cheapest cost (first, rest)) = true) :
    cheapest cost (first, rest.filter p) = cheapest cost (first, rest) := by
  have hkept := (isCheapest_cheapest cost (first, rest)).filter hcheapest
  rw [List.filter_cons_of_pos hfirst] at hkept
  exact (isCheapest_cheapest cost (first, rest.filter p)).unique hkept

end Cheapest

/-! ## Groups -/

variable [DecidableEq κ]

/-- Split a list by key: the groups in order, each its first element and the later ones. -/
def groupsBy (key : α → κ) : List α → List (α × List α)
  | [] => []
  | a :: rest =>
      (a, rest.filter fun x => key x = key a) :: groupsBy key (rest.filter fun x => key x ≠ key a)
termination_by l => l.length
decreasing_by
  rw [List.length_unattach]
  exact Nat.lt_succ_of_le ((List.length_filter_le _ _).trans (List.length_attach).le)

@[simp]
theorem groupsBy_nil (key : α → κ) : groupsBy key [] = [] := by rw [groupsBy]

theorem groupsBy_cons (key : α → κ) (a : α) (rest : List α) :
    groupsBy key (a :: rest) =
      (a, rest.filter fun x => key x = key a) ::
        groupsBy key (rest.filter fun x => key x ≠ key a) := by rw [groupsBy]

/-- Induction along the groups: the first group goes, the other elements stay. -/
theorem groups_induction (key : α → κ) {motive : List α → Prop} (nil : motive [])
    (cons : ∀ a rest, motive (rest.filter fun x => key x ≠ key a) → motive (a :: rest))
    (l : List α) : motive l := by
  induction hlength : l.length using Nat.strong_induction_on generalizing l with
  | _ length ih =>
      cases l with
      | nil => exact nil
      | cons a rest =>
          apply cons
          refine ih _ ?_ _ rfl
          rw [← hlength]
          exact Nat.lt_succ_of_le (List.length_filter_le _ _)

section Groups

variable {key : α → κ}

/-- A group is all that has the key of its first element. -/
theorem members_eq {l : List α} {group : α × List α} (h : group ∈ groupsBy key l) :
    group.1 :: group.2 = l.filter fun x => key x = key group.1 := by
  induction l using groups_induction key with
  | nil => simp at h
  | cons a rest ih =>
      rw [groupsBy_cons, List.mem_cons] at h
      rcases h with rfl | h
      · rw [List.filter_cons_of_pos (by simp)]
      · have hmembers := ih h
        have hkey : key group.1 ≠ key a := by
          have hmem : group.1 ∈ (rest.filter fun x => key x ≠ key a).filter
              fun x => key x = key group.1 := hmembers ▸ List.mem_cons_self
          simpa using (List.mem_filter.1 (List.mem_filter.1 hmem).1).2
        rw [List.filter_cons_of_neg (by simpa using hkey.symm), hmembers, List.filter_filter]
        apply List.filter_congr
        intro x _
        by_cases hx : key x = key group.1
        · simp [hx, hkey]
        · simp [hx]

theorem mem_of_mem_group {l : List α} {group : α × List α} (h : group ∈ groupsBy key l) {x : α}
    (hx : x ∈ group.1 :: group.2) : x ∈ l ∧ key x = key group.1 := by
  rw [members_eq h] at hx
  simpa using List.mem_filter.1 hx

theorem exists_group (key : α → κ) {l : List α} {x : α} (h : x ∈ l) :
    ∃ group ∈ groupsBy key l, key group.1 = key x := by
  induction l using groups_induction key with
  | nil => cases h
  | cons a rest ih =>
      rw [groupsBy_cons]
      by_cases hkey : key x = key a
      · exact ⟨_, List.mem_cons_self, hkey.symm⟩
      · have hrest : x ∈ rest := (List.mem_cons.1 h).resolve_left fun heq => hkey (heq ▸ rfl)
        obtain ⟨group, hgroup, hsame⟩ := ih (List.mem_filter.2 ⟨hrest, by simpa using hkey⟩)
        exact ⟨group, List.mem_cons_of_mem _ hgroup, hsame⟩

theorem length_groupsBy_le (key : α → κ) (l : List α) : (groupsBy key l).length ≤ l.length := by
  induction l using groups_induction key with
  | nil => simp
  | cons a rest ih =>
      rw [groupsBy_cons, List.length_cons, List.length_cons]
      exact Nat.succ_le_succ (ih.trans (List.length_filter_le _ _))

/-- Different groups have different keys. -/
theorem nodup_group_keys (key : α → κ) (l : List α) :
    ((groupsBy key l).map fun group => key group.1).Nodup := by
  induction l using groups_induction key with
  | nil => simp
  | cons a rest ih =>
      rw [groupsBy_cons, List.map_cons, List.nodup_cons]
      refine ⟨fun hmem => ?_, ih⟩
      obtain ⟨group, hgroup, hkey⟩ := List.mem_map.1 hmem
      have hother := (mem_of_mem_group hgroup List.mem_cons_self).1
      simp [hkey] at hother

/-- There are as many groups as elements that pairwise differ in key can be found. -/
theorem le_length_groupsBy_iff {n : ℕ} {l : List α} :
    n ≤ (groupsBy key l).length ↔
      ∃ apart : List α, apart.length = n ∧ apart ⊆ l ∧
        apart.Pairwise fun x y => key x ≠ key y := by
  constructor
  · intro hn
    refine ⟨((groupsBy key l).take n).map Prod.fst, ?_, ?_, ?_⟩
    · rw [List.length_map, List.length_take, min_eq_left hn]
    · intro x hx
      obtain ⟨group, hgroup, rfl⟩ := List.mem_map.1 hx
      exact (mem_of_mem_group (List.mem_of_mem_take hgroup) List.mem_cons_self).1
    · have hkeys := List.pairwise_map.1 (nodup_group_keys key l)
      exact List.pairwise_map.2 (hkeys.sublist (List.take_sublist n _))
  · rintro ⟨apart, rfl, hsubset, hapart⟩
    have hnodup : (apart.map key).Nodup := List.pairwise_map.2 hapart
    have hkeys : apart.map key ⊆ (groupsBy key l).map fun group => key group.1 := by
      intro k hk
      obtain ⟨x, hx, rfl⟩ := List.mem_map.1 hk
      obtain ⟨group, hgroup, hkey⟩ := exists_group key (hsubset hx)
      exact List.mem_map.2 ⟨group, hgroup, hkey⟩
    have hle := (List.subperm_of_subset hnodup hkeys).length_le
    rwa [List.length_map, List.length_map] at hle

/-- Splitting images by key is splitting their originals by the key of the image. -/
theorem groupsBy_map {γ : Type*} (f : γ → α) (l : List γ) :
    groupsBy key (l.map f) =
      (groupsBy (fun x => key (f x)) l).map fun group => (f group.1, group.2.map f) := by
  induction l using groups_induction fun x => key (f x) with
  | nil => simp
  | cons a rest ih =>
      rw [List.map_cons, groupsBy_cons, groupsBy_cons, List.map_cons, List.filter_map,
        List.filter_map]
      exact congrArg _ ih

variable [LinearOrder β]

theorem key_cheapest (cost : α → β) {l : List α} {group : α × List α} (h : group ∈ groupsBy key l) :
    key (cheapest cost group) = key group.1 :=
  (mem_of_mem_group h (cheapest_mem group)).2

/-- The cheapest of the groups have different keys. -/
theorem nodup_cheapest_keys (key : α → κ) (cost : α → β) (l : List α) :
    (((groupsBy key l).map (cheapest cost)).map key).Nodup := by
  have hkeys : ((groupsBy key l).map (cheapest cost)).map key =
      (groupsBy key l).map fun group => key group.1 := by
    rw [List.map_map]
    exact List.map_congr_left fun group hgroup => key_cheapest cost hgroup
  rw [hkeys]
  exact nodup_group_keys key l

/-! ## Order -/

section Order

/-- The group of one key can be moved to the front. -/
theorem exists_group_perm (key : α → κ) {k : κ} {l : List α} (h : ∃ x ∈ l, key x = k) :
    ∃ group : α × List α, group.1 :: group.2 = l.filter (fun x => key x = k) ∧
      (groupsBy key l).Perm (group :: groupsBy key (l.filter fun x => key x ≠ k)) := by
  induction l using groups_induction key with
  | nil => simp at h
  | cons a rest ih =>
      by_cases hkey : key a = k
      · subst hkey
        refine ⟨(a, rest.filter fun x => key x = key a), ?_, ?_⟩
        · rw [List.filter_cons_of_pos (by simp)]
        · rw [groupsBy_cons, List.filter_cons_of_neg (by simp)]
      · obtain ⟨x, hx, hxk⟩ := h
        have hrest : x ∈ rest :=
          (List.mem_cons.1 hx).resolve_left fun heq => hkey (heq ▸ hxk)
        have hother : x ∈ rest.filter fun x => key x ≠ key a :=
          List.mem_filter.2 ⟨hrest, by simpa [hxk] using Ne.symm hkey⟩
        obtain ⟨group, hgroup, hperm⟩ := ih ⟨x, hother, hxk⟩
        have hsame : (rest.filter fun x => key x ≠ key a).filter (fun x => key x = k) =
            rest.filter fun x => key x = k := by
          rw [List.filter_filter]
          apply List.filter_congr
          intro y _
          by_cases hy : key y = k
          · simp [hy, Ne.symm hkey]
          · simp [hy]
        have hfirst : (rest.filter fun x => key x ≠ k).filter (fun x => key x = key a) =
            rest.filter fun x => key x = key a := by
          rw [List.filter_filter]
          apply List.filter_congr
          intro y _
          by_cases hy : key y = key a
          · simp [hy, hkey]
          · simp [hy]
        refine ⟨group, ?_, ?_⟩
        · rw [hgroup, hsame, List.filter_cons_of_neg (by simpa using hkey)]
        · rw [groupsBy_cons, List.filter_cons_of_pos (by simpa using hkey), groupsBy_cons,
            hfirst, List.filter_comm]
          exact (hperm.cons _).trans (List.Perm.swap ..)

variable {cost : α → β}

/-- What the cheapest of the groups cost does not depend on the order of the list, nor on
the names of the keys. -/
theorem perm_cheapest_costs (cost : α → β) {key' : α → κ} {l l' : List α} (hperm : l.Perm l')
    (hkeys : ∀ x ∈ l, ∀ y ∈ l, (key x = key y ↔ key' x = key' y)) :
    ((groupsBy key l).map fun group => cost (cheapest cost group)).Perm
      ((groupsBy key' l').map fun group => cost (cheapest cost group)) := by
  induction l using groups_induction key generalizing l' with
  | nil => simp [List.nil_perm.1 hperm]
  | cons a rest ih =>
      have hnames : ∀ x ∈ a :: rest, (key x = key a ↔ key' x = key' a) :=
        fun x hx => hkeys x hx a List.mem_cons_self
      have hsame : ((a :: rest).filter fun x => key x = key a).Perm
          (l'.filter fun x => key' x = key' a) := by
        rw [List.filter_congr fun x hx => decide_eq_decide.2 (hnames x hx)]
        exact hperm.filter _
      have hothers : ((a :: rest).filter fun x => key x ≠ key a).Perm
          (l'.filter fun x => key' x ≠ key' a) := by
        rw [List.filter_congr fun x hx => decide_eq_decide.2 (not_congr (hnames x hx))]
        exact hperm.filter _
      rw [List.filter_cons_of_pos (by simp)] at hsame
      rw [List.filter_cons_of_neg (by simp)] at hothers
      obtain ⟨group, hgroup, hfront⟩ := exists_group_perm key' (k := key' a) (l := l')
        ⟨a, hperm.subset List.mem_cons_self, rfl⟩
      have hcost : cost (cheapest cost (a, rest.filter fun x => key x = key a)) =
          cost (cheapest cost group) := by
        apply cost_cheapest_congr
        intro x
        rw [hgroup]
        exact hsame.mem_iff
      have hrest := ih hothers fun x hx y hy =>
        hkeys x (List.mem_cons_of_mem _ (List.mem_filter.1 hx).1) y
          (List.mem_cons_of_mem _ (List.mem_filter.1 hy).1)
      have hcosts := hfront.map fun group => cost (cheapest cost group)
      rw [List.map_cons] at hcosts
      rw [groupsBy_cons, List.map_cons, hcost]
      exact (hrest.cons _).trans hcosts.symm

end Order

/-! ## Removal -/

variable {cost : α → β}

/-- Splitting commutes with removal when the first and the cheapest member of every
group with a member to keep are kept. The keys may differ, if they group what is
kept alike. -/
theorem map_cheapest_filter {key' : α → κ} {p : α → Bool} {l : List α}
    (hkeys : ∀ x ∈ l, ∀ y ∈ l, p x = true → p y = true → (key x = key y ↔ key' x = key' y))
    (hlead : ∀ group ∈ groupsBy key l, (∃ x ∈ group.1 :: group.2, p x = true) →
      p group.1 = true ∧ p (cheapest cost group) = true) :
    ((groupsBy key l).map (cheapest cost)).filter p =
      (groupsBy key' (l.filter p)).map (cheapest cost) := by
  induction l using groups_induction key with
  | nil => simp
  | cons a rest ih =>
      have hother : ((groupsBy key (rest.filter fun x => key x ≠ key a)).map
          (cheapest cost)).filter p =
            (groupsBy key' ((rest.filter fun x => key x ≠ key a).filter p)).map
              (cheapest cost) := by
        apply ih
        · intro x hx y hy
          exact hkeys x (List.mem_cons_of_mem a (List.mem_filter.1 hx).1) y
            (List.mem_cons_of_mem a (List.mem_filter.1 hy).1)
        · intro group hgroup
          apply hlead
          rw [groupsBy_cons]
          exact List.mem_cons_of_mem _ hgroup
      have hfirst := hlead (a, rest.filter fun x => key x = key a)
        (by rw [groupsBy_cons]; exact List.mem_cons_self)
      rw [groupsBy_cons, List.map_cons]
      by_cases hany : ∃ x ∈ a :: rest.filter fun x => key x = key a, p x = true
      · obtain ⟨ha, hcheapest⟩ := hfirst hany
        have hagree : ∀ x ∈ rest.filter p, (key x = key a ↔ key' x = key' a) := fun x hx =>
          hkeys x (List.mem_cons_of_mem a (List.mem_filter.1 hx).1) a List.mem_cons_self
            (List.mem_filter.1 hx).2 ha
        have hsame : (rest.filter p).filter (fun x => key' x = key' a) =
            (rest.filter fun x => key x = key a).filter p := by
          rw [List.filter_congr fun x hx => decide_eq_decide.2 (hagree x hx).symm, List.filter_comm]
        have hrest : (rest.filter p).filter (fun x => key' x ≠ key' a) =
            (rest.filter fun x => key x ≠ key a).filter p := by
          rw [List.filter_congr fun x hx => decide_eq_decide.2 (not_congr (hagree x hx).symm),
            List.filter_comm]
        rw [List.filter_cons_of_pos hcheapest, List.filter_cons_of_pos ha, groupsBy_cons,
          List.map_cons, hsame, hrest, cheapest_filter ha hcheapest, hother]
      · push Not at hany
        have hdropped : rest.filter p = (rest.filter fun x => key x ≠ key a).filter p := by
          rw [List.filter_comm]
          refine (List.filter_eq_self.2 fun x hx => ?_).symm
          obtain ⟨hmem, hp⟩ := List.mem_filter.1 hx
          rw [decide_eq_true_iff]
          exact fun hkey => hany x (List.mem_cons_of_mem a
            (List.mem_filter.2 ⟨hmem, by simpa using hkey⟩)) hp
        rw [List.filter_cons_of_neg (hany _ (cheapest_mem _)),
          List.filter_cons_of_neg (hany a List.mem_cons_self), hdropped, hother]

/-- Before every element to remove that shares its key with one to keep stands such
an element to keep, and one of them is cheaper, or as cheap and before it. -/
def Outranked (p : α → Bool) (same : α → α → Prop) (cost : α → β) (l : List α) : Prop :=
  ∀ before x after, l = before ++ x :: after → p x = false →
    (∃ y ∈ l, p y = true ∧ same y x) →
      (∃ y ∈ before, p y = true ∧ same y x) ∧
        ((∃ y ∈ before, p y = true ∧ same y x ∧ cost y ≤ cost x) ∨
          ∃ y ∈ after, p y = true ∧ same y x ∧ cost y < cost x)

/-- Elements to remove that share no key with one to keep need not be outranked. -/
theorem Outranked.of_apart {p : α → Bool} {same : α → α → Prop} {l : List α}
    (h : ∀ x ∈ l, p x = false → ∀ y ∈ l, p y = true → ¬ same y x) : Outranked p same cost l := by
  intro before x after hl hp hany
  obtain ⟨y, hy, hpy, hyx⟩ := hany
  exact absurd hyx (h x (by simp [hl]) hp y hy hpy)

theorem Outranked.congr {p : α → Bool} {same same' : α → α → Prop} {l : List α}
    (h : Outranked p same cost l) (hsame : ∀ x ∈ l, ∀ y ∈ l, (same x y ↔ same' x y)) :
    Outranked p same' cost l := by
  intro before x after hl hp hany
  have hx : x ∈ l := by simp [hl]
  have hbefore : ∀ y ∈ before, y ∈ l := fun y hy => by simp [hl, hy]
  have hafter : ∀ y ∈ after, y ∈ l := fun y hy => by simp [hl, hy]
  obtain ⟨z, hz, hpz, hzx⟩ := hany
  obtain ⟨⟨y, hy, hpy, hyx⟩, hbeats⟩ :=
    h before x after hl hp ⟨z, hz, hpz, (hsame z hz x hx).2 hzx⟩
  refine ⟨⟨y, hy, hpy, (hsame y (hbefore y hy) x hx).1 hyx⟩, hbeats.imp ?_ ?_⟩
  · rintro ⟨y, hy, hpy, hyx, hcost⟩
    exact ⟨y, hy, hpy, (hsame y (hbefore y hy) x hx).1 hyx, hcost⟩
  · rintro ⟨y, hy, hpy, hyx, hcost⟩
    exact ⟨y, hy, hpy, (hsame y (hafter y hy) x hx).1 hyx, hcost⟩

/-- Elements to remove that are outranked lead no group that has one to keep. -/
theorem Outranked.leads {p : α → Bool} {l : List α}
    (h : Outranked p (fun x y => key x = key y) cost l) {group : α × List α}
    (hgroup : group ∈ groupsBy key l) (hany : ∃ x ∈ group.1 :: group.2, p x = true) :
    p group.1 = true ∧ p (cheapest cost group) = true := by
  obtain ⟨x, hx, hpx⟩ := hany
  obtain ⟨hxl, hxkey⟩ := mem_of_mem_group hgroup hx
  have hmembers := members_eq hgroup
  constructor
  · by_contra hp
    obtain ⟨before, after, hl, hnone, -, -⟩ := List.filter_eq_cons_iff.1 hmembers.symm
    obtain ⟨⟨y, hy, -, hkey⟩, -⟩ :=
      h before group.1 after hl (by simpa using hp) ⟨x, hxl, hpx, hxkey⟩
    exact hnone y hy (by simpa using hkey)
  · by_contra hp
    have hkey := key_cheapest cost hgroup
    obtain ⟨dearer, later, hsplit, hdearer, hlater⟩ := isCheapest_cheapest cost group
    rw [hmembers] at hsplit
    obtain ⟨before, tail, hl, hbefore, htail⟩ := List.filter_eq_append_iff.1 hsplit
    obtain ⟨skipped, after, hrest, hnone, -, hafter⟩ := List.filter_eq_cons_iff.1 htail
    rw [hrest, ← List.append_assoc] at hl
    obtain ⟨-, hbeats⟩ := h (before ++ skipped) _ after hl (by simpa using hp)
      ⟨x, hxl, hpx, hxkey.trans hkey.symm⟩
    rcases hbeats with ⟨y, hy, -, hsame, hcost⟩ | ⟨y, hy, -, hsame, hcost⟩
    · rcases List.mem_append.1 hy with hy | hy
      · have hmem : y ∈ dearer := hbefore ▸ List.mem_filter.2 ⟨hy, by simpa using hsame.trans hkey⟩
        exact absurd (hdearer y hmem) (not_lt.2 hcost)
      · exact hnone y hy (by simpa using hsame.trans hkey)
    · have hmem : y ∈ later := hafter ▸ List.mem_filter.2 ⟨hy, by simpa using hsame.trans hkey⟩
      exact absurd hcost (not_lt.2 (hlater y hmem))

end Groups

/-! ## Filling a dictionary -/

section Gather

variable {ν : Type w} (key : α → κ) (start : α → ν) (add : ν → α → ν)

/-- Start an entry at a new key, add to the entry of a known one. -/
def gather (d : Dict κ ν) (a : α) : Dict κ ν :=
  match d.get? (key a) with
  | some v => d.set (key a) (add v a)
  | none => d.set (key a) (start a)

variable {key start add} {d : Dict κ ν} {a : α}

/-- An element with a known key adds to one entry. -/
theorem entries_set_known {v : ν} (hget : d.get? (key a) = some v) (rest : List α) :
    ((d.set (key a) (add v a)).entries.map fun entry =>
        (entry.1, (rest.filter fun x => key x = entry.1).foldl add entry.2)) =
      d.entries.map fun entry =>
        (entry.1, ((a :: rest).filter fun x => key x = entry.1).foldl add entry.2) := by
  simp only [Dict.set, if_pos (Dict.mem_of_get?_eq_some hget), List.map_map]
  apply List.map_congr_left
  intro entry hentry
  by_cases hkey : entry.1 = key a
  · have hvalue : entry.2 = v :=
      Dict.value_unique (k := key a) (by rw [← hkey]; exact hentry) (Dict.get?_eq_some_iff.1 hget)
    simp [hkey, hvalue]
  · simp [hkey, Ne.symm hkey]

/-- An element with a new key leads a group of its own. -/
theorem groupsBy_new (hnew : key a ∉ d) (v : ν) (rest : List α) :
    groupsBy key ((a :: rest).filter fun x => key x ∉ d) =
      (a, rest.filter fun x => key x = key a) ::
        groupsBy key (rest.filter fun x => key x ∉ d.set (key a) v) := by
  have hthis : (rest.filter fun x => key x ∉ d).filter (fun x => key x = key a) =
      rest.filter fun x => key x = key a := by
    rw [List.filter_filter]
    apply List.filter_congr
    intro x _
    by_cases hx : key x = key a <;> simp [hx, hnew]
  have hothers : (rest.filter fun x => key x ∉ d).filter (fun x => key x ≠ key a) =
      rest.filter fun x => key x ∉ d.set (key a) v := by
    rw [List.filter_filter]
    exact List.filter_congr fun x _ => by simp [Dict.mem_set]
  rw [List.filter_cons_of_pos (by simpa using hnew), groupsBy_cons, hthis, hothers]

variable (key start add)

/-- What a dictionary is filled to: each entry takes the elements of its key, and the
other groups follow in order. -/
theorem entries_gather_all (l : List α) (d : Dict κ ν) :
    (l.foldl (gather key start add) d).entries =
      (d.entries.map fun entry =>
        (entry.1, (l.filter fun x => key x = entry.1).foldl add entry.2)) ++
      (groupsBy key (l.filter fun x => key x ∉ d)).map fun group =>
        (key group.1, group.2.foldl add (start group.1)) := by
  induction l generalizing d with
  | nil => simp
  | cons a rest ih =>
      rw [List.foldl_cons, ih]
      cases hget : d.get? (key a) with
      | some v =>
          have hmem : key a ∈ d := Dict.mem_of_get?_eq_some hget
          have hkeys : ∀ k, k ∈ d.set (key a) (add v a) ↔ k ∈ d := fun k => by
            rw [Dict.mem_set]
            exact or_iff_right_of_imp fun heq => heq ▸ hmem
          simp only [gather, hget, hkeys]
          rw [entries_set_known hget, List.filter_cons_of_neg (by simpa using hmem)]
      | none =>
          have hnew : key a ∉ d := Dict.get?_eq_none_iff.1 hget
          have hold : ∀ entry ∈ d.entries, key a ≠ entry.1 := fun entry hentry heq =>
            hnew (Dict.mem_iff_exists_entry.2 ⟨entry.2, by rw [heq]; exact hentry⟩)
          have hkept : (d.entries.map fun entry =>
              (entry.1, ((a :: rest).filter fun x => key x = entry.1).foldl add entry.2)) =
                d.entries.map fun entry =>
                  (entry.1, (rest.filter fun x => key x = entry.1).foldl add entry.2) :=
            List.map_congr_left fun entry hentry => by
              rw [List.filter_cons_of_neg (by simpa using hold entry hentry)]
          simp only [gather, hget]
          rw [groupsBy_new hnew (start a), hkept]
          simp only [Dict.set, if_neg hnew, List.map_append, List.map_cons, List.map_nil,
            List.append_assoc, List.singleton_append]

/-- What an empty dictionary is filled with: one entry for each group. -/
theorem values_gather (l : List α) :
    (l.foldl (gather key start add) Dict.empty).values =
      (groupsBy key l).map fun group => group.2.foldl add (start group.1) := by
  have hall : l.filter (fun x => key x ∉ (Dict.empty : Dict κ ν)) = l :=
    List.filter_eq_self.2 fun x _ => by simp [← Dict.get?_eq_none_iff]
  rw [Dict.values, entries_gather_all, hall]
  simp [Dict.empty]

/-- A step that keeps the cheapest of each key is such a gathering. -/
theorem eq_gather_cheaper [LinearOrder β] {key : α → κ} {cost : α → β} {d step : Dict κ α} {a : α}
    (hnew : d.get? (key a) = none → step = d.set (key a) a)
    (hless : ∀ kept, d.get? (key a) = some kept → cost a < cost kept → step = d.set (key a) a)
    (hmore : ∀ kept, d.get? (key a) = some kept → ¬ cost a < cost kept → step = d) :
    step = gather key id (cheaper cost) d a := by
  unfold gather
  cases hget : d.get? (key a) with
  | none => exact hnew hget
  | some kept =>
      by_cases hcost : cost a < cost kept
      · simp only [cheaper, if_pos hcost]
        exact hless kept hget hcost
      · simp only [cheaper, if_neg hcost, Dict.set_get? hget]
        exact hmore kept hget hcost

end Gather

/-! ## Stable sorting -/

section Sorting

variable {r : α → α → Prop} [DecidableRel r]

theorem orderedInsert_of_forall {a : α} {l : List α} (h : ∀ x ∈ l, r a x) :
    l.orderedInsert r a = a :: l := by
  cases l with
  | nil => rfl
  | cons b rest => exact List.orderedInsert_cons_of_le r rest (h b List.mem_cons_self)

theorem filter_orderedInsert [IsTrans α r] (p : α → Bool) {a : α} {l : List α}
    (hl : l.Pairwise r) :
    (l.orderedInsert r a).filter p =
      if p a = true then (l.filter p).orderedInsert r a else l.filter p := by
  induction l with
  | nil => simp [List.filter_cons]
  | cons b rest ih =>
      obtain ⟨hb, hrest⟩ := List.pairwise_cons.1 hl
      by_cases hab : r a b
      · have hall : ∀ x ∈ (b :: rest).filter p, r a x := by
          intro x hx
          rcases List.mem_cons.1 (List.mem_filter.1 hx).1 with rfl | hx
          · exact hab
          · exact IsTrans.trans a b x hab (hb x hx)
        rw [List.orderedInsert_cons_of_le r rest hab, orderedInsert_of_forall hall]
        exact List.filter_cons
      · rw [List.orderedInsert_of_not_le r rest hab, List.filter_cons, List.filter_cons, ih hrest]
        by_cases hpb : p b = true
        · rw [if_pos hpb, if_pos hpb, List.orderedInsert_of_not_le r _ hab]
          split_ifs <;> rfl
        · rw [if_neg hpb, if_neg hpb]

/-- A stable sort commutes with removal. -/
theorem filter_insertionSort [IsTrans α r] [Std.Total r] (p : α → Bool) (l : List α) :
    (l.insertionSort r).filter p = (l.filter p).insertionSort r := by
  induction l with
  | nil => rfl
  | cons a rest ih =>
      rw [List.insertionSort_cons, filter_orderedInsert p (List.pairwise_insertionSort r rest), ih,
        List.filter_cons]
      split_ifs <;> rfl

/-- What holds of a pair in the order that a stable sort puts it in, holds throughout. -/
theorem pairwise_insertionSort_of [IsTrans α r] [Std.Total r] {q : α → α → Prop} {l : List α}
    (h : l.Pairwise fun x y => (r x y → q x y) ∧ (¬ r x y → q y x)) :
    (l.insertionSort r).Pairwise q := by
  induction l with
  | nil => exact List.Pairwise.nil
  | cons a rest ih =>
      obtain ⟨ha, hrest⟩ := List.pairwise_cons.1 h
      rw [List.insertionSort_cons]
      have hsorted := List.pairwise_insertionSort r rest
      have hall : ∀ x ∈ rest.insertionSort r, (r a x → q a x) ∧ (¬ r a x → q x a) :=
        fun x hx => ha x ((List.mem_insertionSort r).1 hx)
      have hpairwise := ih hrest
      generalize rest.insertionSort r = sorted at hsorted hall hpairwise
      induction sorted with
      | nil => exact List.pairwise_singleton q a
      | cons b tail ihtail =>
          obtain ⟨hb, htail⟩ := List.pairwise_cons.1 hsorted
          obtain ⟨hqb, hqtail⟩ := List.pairwise_cons.1 hpairwise
          by_cases hab : r a b
          · rw [List.orderedInsert_cons_of_le r tail hab]
            refine List.pairwise_cons.2 ⟨fun x hx => (hall x hx).1 ?_, hpairwise⟩
            rcases List.mem_cons.1 hx with rfl | hx
            · exact hab
            · exact IsTrans.trans a b x hab (hb x hx)
          · rw [List.orderedInsert_of_not_le r tail hab]
            refine List.pairwise_cons.2 ⟨fun x hx => ?_, ihtail htail
              (fun x hx => hall x (List.mem_cons_of_mem _ hx)) hqtail⟩
            rcases (List.mem_orderedInsert r).1 hx with rfl | hx
            · exact (hall b List.mem_cons_self).2 hab
            · exact hqb x hx

end Sorting

end DealFinder.Math
