/-
# The first least element of each key

A dictionary keeps one element for each key, and a later element takes the place of the
one kept if it is strictly less. On elements that compare, what is kept is the first of
the least elements of its key.
-/

import DealFinder.Math.Dict

namespace DealFinder.Math

universe u v

variable {α : Type u} {κ : Type v} (key : α → κ) (lt le : α → α → Bool)

/-- An element that is less than those of its key before it, and at most those behind. -/
def FirstLeast (l : List α) (x : α) : Prop :=
  ∃ before after, l = before ++ x :: after ∧ (∀ y ∈ before, key y = key x → lt x y = true) ∧
    ∀ y ∈ after, key y = key x → le x y = true

variable {key lt le}

namespace FirstLeast

theorem mem {l : List α} {x : α} (h : FirstLeast key lt le l x) : x ∈ l := by
  obtain ⟨before, after, rfl, -, -⟩ := h
  exact List.mem_append_right _ List.mem_cons_self

/-- What is less than a first least element is less than every element of the key. -/
theorem lt_of_lt (hlt : ∀ x y z, lt x y = true → le y z = true → lt x z = true)
    (hle : ∀ x y, lt x y = true → le x y = true) {l : List α} {x z : α}
    (h : FirstLeast key lt le l x) (hkey : key z = key x) (hz : lt z x = true) {y : α}
    (hy : y ∈ l) (hother : key y = key z) : lt z y = true := by
  obtain ⟨before, after, rfl, hbefore, hafter⟩ := h
  rcases List.mem_append.1 hy with hy | hy
  · exact hlt z x y hz (hle x y (hbefore y hy (hother.trans hkey)))
  · rcases List.mem_cons.1 hy with rfl | hy
    · exact hz
    · exact hlt z x y hz (hafter y hy (hother.trans hkey))

/-- An element behind that is not less changes nothing. -/
theorem concat {l : List α} {x z : α} (h : FirstLeast key lt le l x)
    (hz : key z = key x → le x z = true) : FirstLeast key lt le (l ++ [z]) x := by
  obtain ⟨before, after, rfl, hbefore, hafter⟩ := h
  refine ⟨before, after ++ [z], by simp, hbefore, fun y hy hkey => ?_⟩
  rcases List.mem_append.1 hy with hy | hy
  · exact hafter y hy hkey
  · obtain rfl := List.mem_singleton.1 hy
    exact hz hkey

/-- A key has one first least element. -/
theorem unique (hasymm : ∀ x y, lt x y = true → le y x = true → False) {l : List α} {x y : α}
    (hx : FirstLeast key lt le l x) (hy : FirstLeast key lt le l y) (hkey : key x = key y) :
    x = y := by
  obtain ⟨before, after, rfl, hbefore, hafter⟩ := hx
  obtain ⟨before', after', heq, hbefore', hafter'⟩ := hy
  rcases List.append_eq_append_iff.1 heq with ⟨mid, rfl, htail⟩ | ⟨mid, rfl, htail⟩
  · cases mid with
    | nil => exact (List.cons.inj htail).1
    | cons z mid =>
        obtain ⟨rfl, hrest⟩ := List.cons.inj htail
        have hless := hbefore' x (List.mem_append_right _ List.mem_cons_self) hkey
        have hmost := hafter y (hrest ▸ List.mem_append_right _ List.mem_cons_self) hkey.symm
        exact absurd hmost fun h => hasymm y x hless h
  · cases mid with
    | nil => exact (List.cons.inj htail).1.symm
    | cons z mid =>
        obtain ⟨rfl, hrest⟩ := List.cons.inj htail
        have hless := hbefore y (List.mem_append_right _ List.mem_cons_self) hkey.symm
        have hmost := hafter' x (hrest ▸ List.mem_append_right _ List.mem_cons_self) hkey
        exact absurd hmost fun h => hasymm x y hless h

end FirstLeast

/-! ## Keeping the first least -/

section Keep

variable [DecidableEq κ] (key lt)

/-- One more element. -/
def keepStep (best : Dict κ α) (x : α) : Dict κ α :=
  if key x ∉ best ∨ (best.get? (key x)).any (lt x) = true then best.set (key x) x else best

/-- The elements kept of a list. -/
def keepFirst (l : List α) : Dict κ α := l.foldl (keepStep key lt) Dict.empty

variable {key lt}

theorem keepFirst_concat (l : List α) (x : α) :
    keepFirst key lt (l ++ [x]) = keepStep key lt (keepFirst key lt l) x := List.foldl_concat ..

/-- A key is kept once an element has it. -/
theorem mem_keepFirst {l : List α} {k : κ} : k ∈ keepFirst key lt l ↔ ∃ x ∈ l, key x = k := by
  induction l using List.reverseRecOn with
  | nil => simp [keepFirst, ← Dict.get?_isSome_iff]
  | append_singleton l z ih =>
      have hstep : k ∈ keepFirst key lt (l ++ [z]) ↔ k = key z ∨ k ∈ keepFirst key lt l := by
        rw [keepFirst_concat, keepStep]
        split_ifs with hset
        · exact Dict.mem_set
        · have hin : key z ∈ keepFirst key lt l := not_not.1 (not_or.1 hset).1
          exact ⟨.inr, fun h => h.elim (fun heq => heq ▸ hin) id⟩
      rw [hstep, ih]
      simp only [List.mem_append, List.mem_singleton]
      constructor
      · rintro (rfl | ⟨x, hx, hkey⟩)
        · exact ⟨z, .inr rfl, rfl⟩
        · exact ⟨x, .inl hx, hkey⟩
      · rintro ⟨x, hx | rfl, hkey⟩
        · exact .inr ⟨x, hx, hkey⟩
        · exact .inl hkey.symm

/-- What is kept for a key has the key. -/
theorem key_of_keepFirst {l : List α} {k : κ} {x : α}
    (h : (keepFirst key lt l).get? k = some x) : key x = k := by
  induction l using List.reverseRecOn generalizing k x with
  | nil => cases h
  | append_singleton l z ih =>
      rw [keepFirst_concat, keepStep] at h
      split_ifs at h
      · rw [Dict.get?_set] at h
        split_ifs at h with hkey
        · exact Option.some_inj.1 h ▸ hkey.symm
        · exact ih h
      · exact ih h

/-- On elements that compare, the first least element of each key is kept. -/
theorem firstLeast_of_keepFirst (hlt : ∀ x y z, lt x y = true → le y z = true → lt x z = true)
    (hle : ∀ x y, lt x y = true → le x y = true) {l : List α}
    (htotal : ∀ x ∈ l, ∀ y ∈ l, lt x y = false → le y x = true) {k : κ} {x : α}
    (h : (keepFirst key lt l).get? k = some x) : FirstLeast key lt le l x := by
  induction l using List.reverseRecOn generalizing k x with
  | nil => cases h
  | append_singleton l z ih =>
      have hold : ∀ x ∈ l, ∀ y ∈ l, lt x y = false → le y x = true := fun x hx y hy =>
        htotal x (List.mem_append_left _ hx) y (List.mem_append_left _ hy)
      have hkey := key_of_keepFirst h
      rw [keepFirst_concat, keepStep] at h
      split_ifs at h with hset
      · rw [Dict.get?_set] at h
        split_ifs at h with heq
        · -- The new element is kept: it is less than all of its key, or has no other.
          obtain rfl := Option.some_inj.1 h
          refine ⟨l, [], rfl, fun y hy hsame => ?_, fun y hy => absurd hy List.not_mem_nil⟩
          have hin : key z ∈ keepFirst key lt l := mem_keepFirst.2 ⟨y, hy, hsame⟩
          obtain ⟨w, hw⟩ := Option.isSome_iff_exists.1 (Dict.get?_isSome_iff.2 hin)
          have hless : lt z w = true := by
            have hany := hset.resolve_left (not_not.2 hin)
            rw [hw] at hany
            exact hany
          exact (ih hold hw).lt_of_lt hlt hle (key_of_keepFirst hw).symm hless hy hsame
        · exact (ih hold h).concat fun hsame => absurd (hkey.symm.trans hsame.symm) heq
      · obtain ⟨hin, hany⟩ := not_or.1 hset
        have hfirst := ih hold h
        refine hfirst.concat fun hsame => htotal z (by simp) x
          (List.mem_append_left _ hfirst.mem) ?_
        have hx : (keepFirst key lt l).get? (key z) = some x := by rw [hsame, hkey, h]
        rw [hx] at hany
        simpa using hany

end Keep

end DealFinder.Math
