/-
# Insertion-ordered dictionaries

A dictionary is a list of entries whose keys are pairwise different. Assigning
to a key it already holds replaces the value in place; assigning to a new key
appends, so iterating over the entries follows the order of first insertion.

Every question about a dictionary is answered through `get?_eq_some_iff`, which
identifies lookup with membership of the entry list. The operations are then
described by what they do to lookups and to the size.
-/

import Mathlib.Data.List.Nodup
import Mathlib.Data.List.Basic
import Mathlib.Data.List.Induction
import Mathlib.Data.List.Perm.Subperm
import Mathlib.Data.Option.Basic

namespace DealFinder.Math

universe u v

/-- A dictionary in insertion order. -/
structure Dict (κ : Type u) (ν : Type v) where
  /-- The entries, first inserted first. -/
  entries : List (κ × ν)
  /-- No key is listed twice. -/
  nodup_keys : (entries.map Prod.fst).Nodup
  deriving DecidableEq

namespace Dict

variable {κ : Type u} {ν : Type v}

/-- The keys, in insertion order. -/
def keys (d : Dict κ ν) : List κ := d.entries.map Prod.fst

/-- The values, in insertion order of their keys. -/
def values (d : Dict κ ν) : List ν := d.entries.map Prod.snd

/-- The number of keys. -/
def size (d : Dict κ ν) : ℕ := d.entries.length

/-- The dictionary without entries. -/
def empty : Dict κ ν := ⟨[], List.nodup_nil⟩

instance : Membership κ (Dict κ ν) := ⟨fun d k => k ∈ d.keys⟩

theorem mem_def {d : Dict κ ν} {k : κ} : k ∈ d ↔ k ∈ d.keys := Iff.rfl

theorem mem_iff_exists_entry {d : Dict κ ν} {k : κ} :
    k ∈ d ↔ ∃ v, (k, v) ∈ d.entries := by
  simp [mem_def, keys]

/-- Two entries of one key are the same entry. -/
theorem value_unique {d : Dict κ ν} {k : κ} {first second : ν}
    (hfirst : (k, first) ∈ d.entries) (hsecond : (k, second) ∈ d.entries) :
    first = second := by
  have hentry := List.inj_on_of_nodup_map d.nodup_keys hfirst hsecond rfl
  exact congrArg Prod.snd hentry

@[simp]
theorem size_empty : (empty : Dict κ ν).size = 0 := rfl

theorem not_mem_of_size_eq_zero {d : Dict κ ν} (h : d.size = 0) {k : κ} : k ∉ d := by
  have hentries : d.entries = [] := List.eq_nil_of_length_eq_zero h
  rw [mem_def, keys, hentries]
  exact List.not_mem_nil

/-- Keep the entries that satisfy a test. -/
def filter (p : κ → ν → Bool) (d : Dict κ ν) : Dict κ ν where
  entries := d.entries.filter fun entry => p entry.1 entry.2
  nodup_keys := d.nodup_keys.sublist (List.filter_sublist.map Prod.fst)

theorem mem_entries_filter {p : κ → ν → Bool} {d : Dict κ ν} {entry : κ × ν} :
    entry ∈ (d.filter p).entries ↔ entry ∈ d.entries ∧ p entry.1 entry.2 = true := by
  simp [filter]

theorem eq_of_entries {d e : Dict κ ν} (h : d.entries = e.entries) : d = e := by
  cases d
  cases e
  simp only [mk.injEq]
  exact h

theorem filter_filter (p q : κ → ν → Bool) (d : Dict κ ν) :
    (d.filter q).filter p = d.filter fun k v => p k v && q k v :=
  eq_of_entries (List.filter_filter ..)

/-- Two filters in either order. -/
theorem filter_comm (p q : κ → ν → Bool) (d : Dict κ ν) :
    (d.filter q).filter p = (d.filter p).filter q := by
  rw [filter_filter, filter_filter]
  simp only [Bool.and_comm]

theorem entries_filter (p : κ → ν → Bool) (d : Dict κ ν) :
    (d.filter p).entries = d.entries.filter fun entry => p entry.1 entry.2 := rfl

theorem size_filter_le (p : κ → ν → Bool) (d : Dict κ ν) :
    (d.filter p).size ≤ d.size :=
  List.length_filter_le _ _

variable [DecidableEq κ]

instance (k : κ) (d : Dict κ ν) : Decidable (k ∈ d) :=
  inferInstanceAs (Decidable (k ∈ d.keys))

/-- The value stored under a key. -/
def get? (d : Dict κ ν) (k : κ) : Option ν :=
  (d.entries.find? fun entry => entry.1 = k).map Prod.snd

/-- The value stored under a key, or a default. -/
def getD (d : Dict κ ν) (k : κ) (default : ν) : ν := (d.get? k).getD default

/-- Assign to a key: in place when it is present, at the end when it is new. -/
def set (d : Dict κ ν) (k : κ) (v : ν) : Dict κ ν where
  entries :=
    if k ∈ d then d.entries.map fun entry => if entry.1 = k then (k, v) else entry
    else d.entries ++ [(k, v)]
  nodup_keys := by
    split
    · have hkeys : (d.entries.map fun entry => if entry.1 = k then (k, v) else entry).map
          Prod.fst = d.entries.map Prod.fst := by
        rw [List.map_map]
        apply List.map_congr_left
        intro entry _
        by_cases hkey : entry.1 = k <;> simp [hkey]
      rw [hkeys]
      exact d.nodup_keys
    · next hnew =>
      rw [List.map_append]
      refine List.nodup_append'.2 ⟨d.nodup_keys, List.nodup_singleton _, ?_⟩
      simpa [keys, mem_def] using hnew

/-- Remove the listed keys. -/
def eraseAll (d : Dict κ ν) (gone : List κ) : Dict κ ν :=
  d.filter fun k _ => decide (k ∉ gone)

/-- Assign every entry of a second dictionary, in its order. -/
def update (d e : Dict κ ν) : Dict κ ν :=
  e.entries.foldl (fun acc entry => acc.set entry.1 entry.2) d

/-- A dict comprehension: the pairs are assigned one after the other. -/
def ofPairs (l : List (κ × ν)) : Dict κ ν := l.foldl (fun d pair => d.set pair.1 pair.2) empty

/-! ## Lookup -/

/-- Lookup is membership of the entry list. -/
theorem get?_eq_some_iff {d : Dict κ ν} {k : κ} {v : ν} :
    d.get? k = some v ↔ (k, v) ∈ d.entries := by
  constructor
  · intro h
    obtain ⟨⟨key, value⟩, hfind, rfl⟩ := Option.map_eq_some_iff.1 h
    have hkey : key = k := by simpa using List.find?_some hfind
    subst hkey
    exact List.mem_of_find?_eq_some hfind
  · intro hmem
    have hsome : (d.entries.find? fun entry => entry.1 = k).isSome := by
      simpa using ⟨v, hmem⟩
    obtain ⟨⟨key, value⟩, hfind⟩ := Option.isSome_iff_exists.1 hsome
    have hkey : key = k := by simpa using List.find?_some hfind
    subst hkey
    have hvalue := value_unique (List.mem_of_find?_eq_some hfind) hmem
    simp [get?, hfind, hvalue]

theorem get?_isSome_iff {d : Dict κ ν} {k : κ} : (d.get? k).isSome ↔ k ∈ d := by
  simp only [Option.isSome_iff_exists, get?_eq_some_iff, mem_iff_exists_entry]

theorem get?_eq_none_iff {d : Dict κ ν} {k : κ} : d.get? k = none ↔ k ∉ d := by
  rw [← get?_isSome_iff, Option.not_isSome_iff_eq_none]

theorem mem_of_get?_eq_some {d : Dict κ ν} {k : κ} {v : ν} (h : d.get? k = some v) :
    k ∈ d :=
  get?_isSome_iff.1 (by simp [h])

theorem mem_values_iff {d : Dict κ ν} {v : ν} : v ∈ d.values ↔ ∃ k, d.get? k = some v := by
  simp only [values, List.mem_map, get?_eq_some_iff]
  constructor
  · rintro ⟨⟨key, value⟩, hmem, rfl⟩
    exact ⟨key, hmem⟩
  · rintro ⟨key, hmem⟩
    exact ⟨(key, v), hmem, rfl⟩

@[simp]
theorem get?_empty (k : κ) : (empty : Dict κ ν).get? k = none := rfl

@[simp]
theorem get?_filter (p : κ → ν → Bool) (d : Dict κ ν) (k : κ) :
    (d.filter p).get? k = (d.get? k).filter (p k) := by
  ext v
  rw [get?_eq_some_iff, mem_entries_filter, Option.filter_eq_some_iff, get?_eq_some_iff]

/-- What a filter leaves was there. -/
theorem get?_of_filter {p : κ → ν → Bool} {d : Dict κ ν} {k : κ} {v : ν}
    (h : (d.filter p).get? k = some v) : d.get? k = some v := by
  rw [get?_filter, Option.filter_eq_some_iff] at h
  exact h.1

@[simp]
theorem get?_set_self (d : Dict κ ν) (k : κ) (v : ν) : (d.set k v).get? k = some v := by
  rw [get?_eq_some_iff]
  by_cases hmem : k ∈ d
  · obtain ⟨old, hold⟩ := mem_iff_exists_entry.1 hmem
    simp only [set, if_pos hmem, List.mem_map]
    exact ⟨(k, old), hold, by simp⟩
  · simp [set, if_neg hmem]

theorem get?_set_of_ne (d : Dict κ ν) {k other : κ} (v : ν) (hne : other ≠ k) :
    (d.set k v).get? other = d.get? other := by
  ext w
  rw [get?_eq_some_iff, get?_eq_some_iff]
  by_cases hmem : k ∈ d
  · simp only [set, if_pos hmem, List.mem_map]
    constructor
    · rintro ⟨entry, hentry, heq⟩
      by_cases hkey : entry.1 = k
      · rw [if_pos hkey] at heq
        exact absurd (congrArg Prod.fst heq).symm hne
      · rw [if_neg hkey] at heq
        exact heq ▸ hentry
    · intro hentry
      exact ⟨(other, w), hentry, by simp [hne]⟩
  · simp [set, if_neg hmem, hne]

theorem get?_set (d : Dict κ ν) (k other : κ) (v : ν) :
    (d.set k v).get? other = if other = k then some v else d.get? other := by
  split
  · next heq => rw [heq, get?_set_self]
  · next hne => exact get?_set_of_ne d v hne

/-- Assigning the value that is there changes nothing. -/
theorem set_get? {d : Dict κ ν} {k : κ} {v : ν} (h : d.get? k = some v) : d.set k v = d := by
  have hmem := mem_of_get?_eq_some h
  have hentries : (d.entries.map fun entry => if entry.1 = k then (k, v) else entry) =
      d.entries := by
    refine (List.map_congr_left fun entry hentry => ?_).trans (List.map_id _)
    split
    · next heq =>
      subst heq
      rw [value_unique (get?_eq_some_iff.1 h) hentry]
      rfl
    · rfl
  obtain ⟨entries, hnodup⟩ := d
  simp only [set, if_pos hmem, Dict.mk.injEq]
  exact hentries

theorem mem_set {d : Dict κ ν} {k other : κ} {v : ν} :
    other ∈ d.set k v ↔ other = k ∨ other ∈ d := by
  rw [← get?_isSome_iff, ← get?_isSome_iff, get?_set]
  by_cases heq : other = k <;> simp [heq]

@[simp]
theorem get?_eraseAll (d : Dict κ ν) (gone : List κ) (k : κ) :
    (d.eraseAll gone).get? k = if k ∈ gone then none else d.get? k := by
  rw [eraseAll, get?_filter]
  by_cases hgone : k ∈ gone <;> cases hget : d.get? k <;> simp [hgone]

private theorem get?_foldl_set (l : List (κ × ν)) (hl : (l.map Prod.fst).Nodup) (d : Dict κ ν)
    (k : κ) :
    (l.foldl (fun acc entry => acc.set entry.1 entry.2) d).get? k =
      ((l.find? fun entry => entry.1 = k).map Prod.snd).or (d.get? k) := by
  induction l generalizing d with
  | nil => simp
  | cons entry rest ih =>
      obtain ⟨hnew, hrest⟩ := List.nodup_cons.1 hl
      rw [List.foldl_cons, ih hrest, get?_set]
      by_cases hkey : entry.1 = k
      · have hnone : (rest.find? fun entry => entry.1 = k) = none := by
          rw [List.find?_eq_none]
          intro other hother heq
          rw [← hkey] at heq
          exact hnew (List.mem_map.2 ⟨other, hother, by simpa using heq⟩)
        simp [hkey, hnone]
      · simp [hkey, Ne.symm hkey]

/-- An update's own value of a key, or else the old one. -/
theorem get?_update (d e : Dict κ ν) (k : κ) : (d.update e).get? k = (e.get? k).or (d.get? k) :=
  get?_foldl_set e.entries e.nodup_keys d k

theorem ofPairs_concat (l : List (κ × ν)) (pair : κ × ν) :
    ofPairs (l ++ [pair]) = (ofPairs l).set pair.1 pair.2 := List.foldl_concat ..

theorem mem_ofPairs {l : List (κ × ν)} {k : κ} : k ∈ ofPairs l ↔ ∃ v, (k, v) ∈ l := by
  induction l using List.reverseRecOn with
  | nil => simp [ofPairs, mem_def, empty, keys]
  | append_singleton l pair ih =>
      rw [ofPairs_concat, mem_set, ih]
      constructor
      · rintro (rfl | ⟨v, hv⟩)
        · exact ⟨pair.2, by simp⟩
        · exact ⟨v, List.mem_append_left _ hv⟩
      · rintro ⟨v, hv⟩
        rcases List.mem_append.1 hv with hv | hv
        · exact Or.inr ⟨v, hv⟩
        · exact Or.inl (congrArg Prod.fst (List.mem_singleton.1 hv))

/-- Of the pairs with a key the last one counts. -/
theorem get?_ofPairs (l : List (κ × ν)) (k : κ) :
    (ofPairs l).get? k = (l.reverse.find? fun pair => pair.1 = k).map Prod.snd := by
  induction l using List.reverseRecOn with
  | nil => rfl
  | append_singleton l pair ih =>
      rw [ofPairs_concat, get?_set, List.reverse_append, List.reverse_singleton,
        List.singleton_append, List.find?_cons, ih]
      by_cases hkey : k = pair.1
      · simp [hkey]
      · have hne : pair.1 ≠ k := fun h => hkey h.symm
        simp [hkey, hne]

/-- What a comprehension holds was listed. -/
theorem mem_of_get?_ofPairs {l : List (κ × ν)} {k : κ} {v : ν}
    (h : (ofPairs l).get? k = some v) : (k, v) ∈ l := by
  rw [get?_ofPairs] at h
  obtain ⟨pair, hfind, hvalue⟩ := Option.map_eq_some_iff.1 h
  have hkey : pair.1 = k := by simpa using List.find?_some hfind
  have hpair : pair = (k, v) := Prod.ext hkey hvalue
  exact hpair ▸ List.mem_reverse.1 (List.mem_of_find?_eq_some hfind)

/-- A comprehension over different keys holds what is listed. -/
theorem get?_ofPairs_of_mem {l : List (κ × ν)} (h : (l.map Prod.fst).Nodup) {k : κ} {v : ν}
    (hmem : (k, v) ∈ l) : (ofPairs l).get? k = some v := by
  obtain ⟨w, hw⟩ := Option.isSome_iff_exists.1 (get?_isSome_iff.2 (mem_ofPairs.2 ⟨v, hmem⟩))
  have hpair := List.inj_on_of_nodup_map h (mem_of_get?_ofPairs hw) hmem rfl
  rw [hw, (Prod.mk.inj hpair).2]

/-! ## Parts with their own keys -/

theorem mem_part {p : κ → Bool} {d : Dict κ ν} {k : κ} :
    (k ∈ d.filter fun k _ => p k) ↔ k ∈ d ∧ p k = true := by
  rw [← get?_isSome_iff, ← get?_isSome_iff, get?_filter]
  cases d.get? k <;> cases p k <;> simp

theorem entries_set_of_mem {d : Dict κ ν} {k : κ} (v : ν) (h : k ∈ d) :
    (d.set k v).entries = d.entries.map fun entry => if entry.1 = k then (k, v) else entry :=
  if_pos h

theorem entries_set_of_not_mem {d : Dict κ ν} {k : κ} (v : ν) (h : k ∉ d) :
    (d.set k v).entries = d.entries ++ [(k, v)] :=
  if_neg h

/-- A comprehension over different keys lists what it was given. -/
theorem entries_ofPairs {l : List (κ × ν)} (h : (l.map Prod.fst).Nodup) :
    (ofPairs l).entries = l := by
  induction l using List.reverseRecOn with
  | nil => rfl
  | append_singleton l pair ih =>
      rw [List.map_append, List.nodup_append] at h
      have hnew : pair.1 ∉ ofPairs l := fun hmem => by
        obtain ⟨v, hv⟩ := mem_ofPairs.1 hmem
        exact h.2.2 pair.1 (List.mem_map.2 ⟨_, hv, rfl⟩) pair.1 (by simp) rfl
      rw [ofPairs_concat, entries_set_of_not_mem _ hnew, ih h.1]

/-- A key of a part is looked up in the part. -/
theorem get?_part {p : κ → Bool} {k : κ} (hk : p k = true) (d : Dict κ ν) :
    (d.filter fun k _ => p k).get? k = d.get? k := by
  rw [get?_filter]
  cases d.get? k <;> simp [hk]

/-- Assigning keeps the keys of the entries. -/
private theorem fst_assigned (k : κ) (v : ν) (entry : κ × ν) :
    (if entry.1 = k then (k, v) else entry).1 = entry.1 := by
  by_cases heq : entry.1 = k <;> simp [heq]

/-- Assigning to a key of a part assigns in the part. -/
theorem filter_set_of_pos {p : κ → Bool} {k : κ} (hk : p k = true) (d : Dict κ ν) (v : ν) :
    (d.set k v).filter (fun k _ => p k) = (d.filter fun k _ => p k).set k v := by
  apply eq_of_entries
  have hmem : k ∈ (d.filter fun k _ => p k) ↔ k ∈ d := by
    rw [← get?_isSome_iff, ← get?_isSome_iff, get?_part hk]
  by_cases hin : k ∈ d
  · rw [entries_set_of_mem v (hmem.2 hin), entries_filter, entries_filter,
      entries_set_of_mem v hin, List.filter_map]
    congr 1
    exact List.filter_congr fun entry _ => by rw [Function.comp_apply, fst_assigned]
  · rw [entries_set_of_not_mem v (mt hmem.1 hin), entries_filter, entries_filter,
      entries_set_of_not_mem v hin, List.filter_append]
    simp [hk]

/-- Assigning to another key leaves a part alone. -/
theorem filter_set_of_neg {p : κ → Bool} {k : κ} (hk : p k = false) (d : Dict κ ν) (v : ν) :
    (d.set k v).filter (fun k _ => p k) = d.filter fun k _ => p k := by
  apply eq_of_entries
  by_cases hin : k ∈ d
  · rw [entries_filter, entries_filter, entries_set_of_mem v hin, List.filter_map,
      List.filter_congr fun entry _ => by rw [Function.comp_apply, fst_assigned]]
    refine (List.map_congr_left fun entry hentry => ?_).trans (List.map_id _)
    have hpos := (List.mem_filter.1 hentry).2
    by_cases heq : entry.1 = k
    · simp [heq, hk] at hpos
    · rw [if_neg heq, id]
  · rw [entries_filter, entries_filter, entries_set_of_not_mem v hin, List.filter_append]
    simp [hk]

/-! ## Size -/

theorem size_set_of_mem {d : Dict κ ν} {k : κ} (v : ν) (hmem : k ∈ d) :
    (d.set k v).size = d.size := by
  simp [size, set, if_pos hmem]

theorem size_set_of_not_mem {d : Dict κ ν} {k : κ} (v : ν) (hmem : k ∉ d) :
    (d.set k v).size = d.size + 1 := by
  simp [size, set, if_neg hmem]

omit [DecidableEq κ] in
/-- A dictionary has no more entries than a list that has its keys. -/
theorem size_le_length {d : Dict κ ν} {l : List κ} (h : ∀ k ∈ d, k ∈ l) : d.size ≤ l.length := by
  have hle := (d.nodup_keys.subperm h).length_le
  rwa [List.length_map] at hle

omit [DecidableEq κ] in
theorem length_keys (d : Dict κ ν) : d.keys.length = d.size := List.length_map _

omit [DecidableEq κ] in
/-- A list that has the keys of a dictionary and is no longer has each of them once. -/
theorem nodup_of_length_le_size {d : Dict κ ν} {l : List κ} (h : ∀ k ∈ d, k ∈ l)
    (hlength : l.length ≤ d.size) : l.Nodup := by
  rw [← length_keys] at hlength
  have hperm := (d.nodup_keys.subperm h).perm_of_length_le hlength
  exact hperm.nodup_iff.1 d.nodup_keys

theorem size_eraseAll_le (d : Dict κ ν) (gone : List κ) : (d.eraseAll gone).size ≤ d.size :=
  size_filter_le _ d

/-- Keys that are there are gone from the size. -/
theorem size_eraseAll_add_le {d : Dict κ ν} {gone : List κ} (hnodup : gone.Nodup)
    (hin : ∀ k ∈ gone, k ∈ d) : (d.eraseAll gone).size + gone.length ≤ d.size := by
  have hkeys : (d.eraseAll gone).keys = d.keys.filter fun k => decide (k ∉ gone) := by
    rw [eraseAll, keys, entries_filter, keys, List.filter_map]
    rfl
  have hgone : gone.length ≤ (d.keys.filter fun k => decide (k ∈ gone)).length := by
    apply List.Subperm.length_le
    apply List.subperm_of_subset hnodup
    intro k hk
    exact List.mem_filter.2 ⟨hin k hk, decide_eq_true hk⟩
  have hsplit := List.length_eq_length_filter_add (l := d.keys) fun k => decide (k ∈ gone)
  rw [← length_keys, ← length_keys, hkeys]
  simp only [decide_not] at hsplit ⊢
  omega

end Dict

end DealFinder.Math
