/-
# Traversals that may fail

A list is read element by element, and an element that cannot be read fails the whole. A
traversal that succeeds has read each element at its place.
-/

import Mathlib.Data.List.Basic

namespace DealFinder.Math

universe u

variable {α β γ : Type u} {f : α → Option β}

theorem mapM_cons_eq_some_iff {a : α} {l : List α} {found : List β} :
    (a :: l).mapM f = some found ↔ ∃ b rest, f a = some b ∧ l.mapM f = some rest ∧
      found = b :: rest := by
  rw [List.mapM_cons]
  cases hb : f a with
  | none => simp
  | some b =>
      cases hrest : l.mapM f with
      | none => simp
      | some rest => simp [eq_comm]

/-- A traversal reads each element at its place. -/
theorem getElem?_of_mapM {l : List α} {found : List β} (h : l.mapM f = some found) (i : ℕ) :
    found[i]? = l[i]?.bind f := by
  induction l generalizing found i with
  | nil =>
      obtain rfl : [] = found := by simpa using h
      rfl
  | cons a l ih =>
      obtain ⟨b, rest, hb, hrest, rfl⟩ := mapM_cons_eq_some_iff.1 h
      cases i with
      | zero => simp [hb]
      | succ i => simpa using ih hrest i

theorem length_of_mapM {l : List α} {found : List β} (h : l.mapM f = some found) :
    found.length = l.length := by
  induction l generalizing found with
  | nil =>
      obtain rfl : [] = found := by simpa using h
      rfl
  | cons a l ih =>
      obtain ⟨b, rest, -, hrest, rfl⟩ := mapM_cons_eq_some_iff.1 h
      rw [List.length_cons, List.length_cons, ih hrest]

/-- No element fails. -/
theorem read_of_mapM {l : List α} {found : List β} (h : l.mapM f = some found) {a : α}
    (ha : a ∈ l) : ∃ b ∈ found, f a = some b := by
  obtain ⟨i, hi⟩ := List.mem_iff_getElem?.1 ha
  have hread := getElem?_of_mapM h i
  rw [hi, Option.bind_some] at hread
  have hlt : i < found.length := by
    rw [length_of_mapM h]
    exact (List.getElem?_eq_some_iff.1 hi).1
  rw [List.getElem?_eq_getElem hlt] at hread
  exact ⟨found[i], List.getElem_mem hlt, hread.symm⟩

/-- What a traversal has found, it has read from an element. -/
theorem source_of_mapM {l : List α} {found : List β} (h : l.mapM f = some found) {b : β}
    (hb : b ∈ found) : ∃ a ∈ l, f a = some b := by
  induction l generalizing found with
  | nil =>
      obtain rfl : [] = found := by simpa using h
      cases hb
  | cons a l ih =>
      obtain ⟨b', rest, hb', hrest, rfl⟩ := mapM_cons_eq_some_iff.1 h
      rcases List.mem_cons.1 hb with rfl | hb
      · exact ⟨a, List.mem_cons_self, hb'⟩
      · obtain ⟨a', ha', hread⟩ := ih hrest hb
        exact ⟨a', List.mem_cons_of_mem a ha', hread⟩

/-- A traversal of elements that can be read succeeds. -/
theorem exists_mapM {l : List α} (h : ∀ a ∈ l, ∃ b, f a = some b) :
    ∃ found, l.mapM f = some found := by
  induction l with
  | nil => exact ⟨[], rfl⟩
  | cons a l ih =>
      obtain ⟨⟨b, hb⟩, hl⟩ := List.forall_mem_cons.1 h
      obtain ⟨found, hfound⟩ := ih hl
      exact ⟨b :: found, mapM_cons_eq_some_iff.2 ⟨b, found, hb, hfound, rfl⟩⟩

/-- Elements whose images can be read are traversed. -/
theorem mapM_map {g : γ → α} {h : γ → β} {l : List γ} (hread : ∀ c ∈ l, f (g c) = some (h c)) :
    (l.map g).mapM f = some (l.map h) := by
  induction l with
  | nil => rfl
  | cons c l ih =>
      obtain ⟨hc, hl⟩ := List.forall_mem_cons.1 hread
      exact mapM_cons_eq_some_iff.2 ⟨h c, l.map h, hc, ih hl, rfl⟩

/-- Elements that can be read are traversed. -/
theorem mapM_of_read {h : α → β} {l : List α} (hread : ∀ a ∈ l, f a = some (h a)) :
    l.mapM f = some (l.map h) := by
  have hsame := mapM_map (g := id) hread
  rwa [List.map_id] at hsame

/-- What is read of each element keeps what can be told of the element. -/
theorem map_eq_of_mapM {g : β → γ} {h : α → γ} (hkept : ∀ a b, f a = some b → g b = h a)
    {l : List α} {found : List β} (hfound : l.mapM f = some found) : found.map g = l.map h := by
  induction l generalizing found with
  | nil =>
      obtain rfl : [] = found := by simpa using hfound
      rfl
  | cons a l ih =>
      obtain ⟨b, rest, hb, hrest, rfl⟩ := mapM_cons_eq_some_iff.1 hfound
      rw [List.map_cons, List.map_cons, hkept a b hb, ih hrest]

/-- What traverses a list and writes back each element writes back the list. -/
theorem map_of_mapM {g : β → α} (hback : ∀ a b, f a = some b → g b = a) {l : List α}
    {found : List β} (h : l.mapM f = some found) : found.map g = l := by
  rw [map_eq_of_mapM hback h]
  exact List.map_id l

/-- One traversal after another is a traversal. -/
theorem bind_mapM (g : β → Option γ) (l : List α) :
    ((l.mapM f).bind fun found => found.mapM g) = l.mapM fun a => (f a).bind g := by
  induction l with
  | nil => rfl
  | cons a l ih =>
      rw [List.mapM_cons, List.mapM_cons, ← ih]
      cases f a with
      | none => rfl
      | some b =>
          cases l.mapM f with
          | none => cases hb : g b <;> simp [hb]
          | some found => simp

end DealFinder.Math
