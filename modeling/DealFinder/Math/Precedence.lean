/-
# Precedence in a list

One element precedes another in a list when the pair is a sublist of it. In a list
without duplicates this is the order of the indices. Precedence survives a cut that
keeps the later of the two, a stable sort that does not reverse them, and a map, and a
sort creates it wherever its keys differ strictly.
-/

import Mathlib.Data.List.Nodup
import Mathlib.Data.List.Sort

namespace DealFinder.Math

universe u v

variable {α : Type u} {β : Type v}

/-- `a` comes before `b` in the list. -/
def Precedes (l : List α) (a b : α) : Prop := List.Sublist [a, b] l

instance [DecidableEq α] (l : List α) (a b : α) : Decidable (Precedes l a b) :=
  inferInstanceAs (Decidable (List.Sublist [a, b] l))

namespace Precedes

theorem mem_left {l : List α} {a b : α} (h : Precedes l a b) : a ∈ l :=
  List.Sublist.subset h List.mem_cons_self

theorem mem_right {l : List α} {a b : α} (h : Precedes l a b) : b ∈ l :=
  List.Sublist.subset h (List.mem_cons_of_mem _ (List.mem_singleton_self _))

theorem cons_iff {x a b : α} {l : List α} :
    Precedes (x :: l) a b ↔ x = a ∧ b ∈ l ∨ Precedes l a b := by
  constructor
  · intro h
    cases h with
    | cons _ h => exact .inr h
    | cons_cons _ h => exact .inl ⟨rfl, List.singleton_sublist.1 h⟩
  · intro h
    rcases h with ⟨rfl, h⟩ | h
    · exact .cons_cons _ (List.singleton_sublist.2 h)
    · exact .cons _ h

theorem map (f : α → β) {l : List α} {a b : α} (h : Precedes l a b) :
    Precedes (l.map f) (f a) (f b) := List.Sublist.map f h

/-- In a list without duplicates the earlier element has the smaller index. -/
theorem idxOf_lt [DecidableEq α] {l : List α} (hl : l.Nodup) {a b : α} (h : Precedes l a b) :
    l.idxOf a < l.idxOf b := by
  induction l with
  | nil => exact absurd h.mem_left List.not_mem_nil
  | cons x l ih =>
      obtain ⟨hx, hl⟩ := List.nodup_cons.1 hl
      rcases cons_iff.1 h with ⟨rfl, hb⟩ | h
      · have hne : x ≠ b := fun heq => hx (heq ▸ hb)
        rw [List.idxOf_cons_self, List.idxOf_cons_ne _ hne]
        exact Nat.succ_pos _
      · have hneLeft : x ≠ a := fun heq => hx (heq ▸ h.mem_left)
        have hneRight : x ≠ b := fun heq => hx (heq ▸ h.mem_right)
        rw [List.idxOf_cons_ne _ hneLeft, List.idxOf_cons_ne _ hneRight]
        exact Nat.succ_lt_succ (ih hl h)

/-- A cut that keeps the later element keeps the earlier one, before it. -/
theorem of_initial {first second : List α} (hinitial : first <+: second) (hnodup : second.Nodup)
    {a b : α} (h : Precedes second a b) (hb : b ∈ first) : Precedes first a b := by
  obtain ⟨rest, rfl⟩ := hinitial
  induction first with
  | nil => exact absurd hb List.not_mem_nil
  | cons x first ih =>
      rw [List.cons_append] at h hnodup
      obtain ⟨hx, hnodup⟩ := List.nodup_cons.1 hnodup
      rcases List.mem_cons.1 hb with rfl | hb
      · -- The later element heads the list, so nothing comes before it.
        rcases cons_iff.1 h with ⟨rfl, hmem⟩ | h
        · exact absurd hmem hx
        · exact absurd h.mem_right hx
      · rcases cons_iff.1 h with ⟨rfl, -⟩ | h
        · exact cons_iff.2 (.inl ⟨rfl, hb⟩)
        · exact cons_iff.2 (.inr (ih hb hnodup h))

/-- In a sorted list, an element that the other may not come before comes first. -/
theorem of_pairwise {r : α → α → Prop} {l : List α} (hsorted : l.Pairwise r) {a b : α}
    (ha : a ∈ l) (hb : b ∈ l) (hne : a ≠ b) (hnot : ¬ r b a) : Precedes l a b := by
  induction l with
  | nil => exact absurd ha List.not_mem_nil
  | cons x l ih =>
      obtain ⟨hhead, htail⟩ := List.pairwise_cons.1 hsorted
      rcases List.mem_cons.1 ha with rfl | hmemA
      · exact cons_iff.2 (.inl ⟨rfl, (List.mem_cons.1 hb).resolve_left hne.symm⟩)
      · rcases List.mem_cons.1 hb with rfl | hmemB
        · exact absurd (hhead a hmemA) hnot
        · exact cons_iff.2 (.inr (ih htail hmemA hmemB))

/-- A stable sort keeps a pair that is in order. -/
theorem insertionSort {r : α → α → Prop} [DecidableRel r] {l : List α} {a b : α}
    (h : Precedes l a b) (hr : r a b) : Precedes (l.insertionSort r) a b :=
  List.pair_sublist_insertionSort hr h

end Precedes

end DealFinder.Math
