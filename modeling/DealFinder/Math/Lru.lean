/-
# Dictionaries in order of use

An ordered dictionary whose entries move to the end when they are used and leave from
the front when there are too many. A table whose rows are inserted or replaced is one from which
none leaves (`ofPuts`). While every use is recorded, the keys are the last
stretch of the record with each key at its last use (`Recent`), so a key that left was
last used before every key that stayed (`Recent.usedAfter`).
-/

import DealFinder.Math.Dict
import Mathlib.Data.List.Dedup
import Mathlib.Data.List.Infix

namespace DealFinder.Math

universe u v

variable {κ : Type u} {ν : Type v} [DecidableEq κ]

namespace Dict

/-! ## Operations -/

/-- `move_to_end`. -/
def moveToEnd (d : Dict κ ν) (k : κ) : Dict κ ν where
  entries := (d.entries.filter fun entry => entry.1 ≠ k) ++
    d.entries.filter fun entry => entry.1 = k
  nodup_keys := by
    rw [List.map_append]
    refine List.nodup_append'.2 ⟨?_, ?_, ?_⟩
    · exact d.nodup_keys.sublist (List.filter_sublist.map Prod.fst)
    · exact d.nodup_keys.sublist (List.filter_sublist.map Prod.fst)
    · intro key hother hsame
      obtain ⟨entry, hentry, rfl⟩ := List.mem_map.1 hother
      obtain ⟨entry', hentry', hkey⟩ := List.mem_map.1 hsame
      have hne := of_decide_eq_true (List.mem_filter.1 hentry).2
      exact hne (hkey.symm.trans (of_decide_eq_true (List.mem_filter.1 hentry').2))

/-- Assign to a key and move it to the end. -/
def put (d : Dict κ ν) (k : κ) (v : ν) : Dict κ ν := (d.set k v).moveToEnd k

/-- The pairs in turn, each at the end. -/
def ofPuts (l : List (κ × ν)) : Dict κ ν := l.foldl (fun d pair => d.put pair.1 pair.2) empty

/-- `popitem(last=False)`. -/
def popFirst (d : Dict κ ν) : Dict κ ν where
  entries := d.entries.tail
  nodup_keys := d.nodup_keys.sublist ((List.tail_sublist _).map Prod.fst)

/-- Pop from the front while there are more than `n` entries. -/
def trim (n : ℕ) (d : Dict κ ν) : Dict κ ν := popFirst^[d.size - n] d

/-! ## What they keep -/

theorem mem_entries_moveToEnd {d : Dict κ ν} {k : κ} {entry : κ × ν} :
    entry ∈ (d.moveToEnd k).entries ↔ entry ∈ d.entries := by
  simp only [moveToEnd, List.mem_append, List.mem_filter, decide_eq_true_eq]
  tauto

@[simp]
theorem get?_moveToEnd (d : Dict κ ν) (k other : κ) :
    (d.moveToEnd k).get? other = d.get? other := by
  apply Option.ext
  intro v
  rw [get?_eq_some_iff, get?_eq_some_iff, mem_entries_moveToEnd]

theorem size_moveToEnd (d : Dict κ ν) (k : κ) : (d.moveToEnd k).size = d.size := by
  rw [size, moveToEnd, List.length_append, size]
  have hsplit := List.length_eq_length_filter_add (l := d.entries) fun entry => entry.1 ≠ k
  simp only [decide_not, Bool.not_not] at hsplit
  simp only [ne_eq, decide_not]
  exact hsplit.symm

theorem get?_put (d : Dict κ ν) (k other : κ) (v : ν) :
    (d.put k v).get? other = if other = k then some v else d.get? other := by
  rw [put, get?_moveToEnd, get?_set]

theorem mem_put {d : Dict κ ν} {k other : κ} {v : ν} :
    other ∈ d.put k v ↔ other = k ∨ other ∈ d := by
  rw [← get?_isSome_iff, get?_put, ← get?_isSome_iff]
  split_ifs with heq
  · exact iff_of_true rfl (.inl heq)
  · exact (or_iff_right heq).symm

theorem entries_put_of_not_mem {d : Dict κ ν} {k : κ} (v : ν) (hk : k ∉ d) :
    (d.put k v).entries = d.entries ++ [(k, v)] := by
  have hother : ∀ entry ∈ d.entries, entry.1 ≠ k := fun entry hmem heq =>
    hk (heq ▸ List.mem_map_of_mem hmem)
  have hkept : (d.entries.filter fun entry => entry.1 ≠ k) = d.entries :=
    List.filter_eq_self.2 fun entry hmem => decide_eq_true (hother entry hmem)
  have hmoved : (d.entries.filter fun entry => entry.1 = k) = [] :=
    List.filter_eq_nil_iff.2 fun entry hmem => by simp [hother entry hmem]
  have hparts : (d.put k v).entries = ((d.set k v).entries.filter fun entry => entry.1 ≠ k) ++
      (d.set k v).entries.filter fun entry => entry.1 = k := rfl
  rw [hparts, entries_set_of_not_mem v hk, List.filter_append, List.filter_append, hkept, hmoved]
  simp

theorem ofPuts_concat (l : List (κ × ν)) (pair : κ × ν) :
    ofPuts (l ++ [pair]) = (ofPuts l).put pair.1 pair.2 := List.foldl_concat ..

theorem mem_ofPuts {l : List (κ × ν)} {k : κ} : k ∈ ofPuts l ↔ k ∈ l.map Prod.fst := by
  induction l using List.reverseRecOn with
  | nil => exact Iff.rfl
  | append_singleton l pair ih =>
      rw [ofPuts_concat, mem_put, ih, List.map_append, List.map_singleton, List.mem_append,
        List.mem_singleton, or_comm]

/-- Pairs with different keys stay as they were listed. -/
theorem entries_ofPuts {l : List (κ × ν)} (h : (l.map Prod.fst).Nodup) :
    (ofPuts l).entries = l := by
  induction l using List.reverseRecOn with
  | nil => rfl
  | append_singleton l pair ih =>
      rw [List.map_append, List.map_singleton, List.nodup_append'] at h
      have hnew : pair.1 ∉ ofPuts l := fun hmem =>
        h.2.2 (mem_ofPuts.1 hmem) (List.mem_singleton_self _)
      rw [ofPuts_concat, entries_put_of_not_mem _ hnew, ih h.1]

/-- When none is replaced the keys are different. -/
theorem nodup_of_size_ofPuts {l : List (κ × ν)} (h : (ofPuts l).size = l.length) :
    (l.map Prod.fst).Nodup := by
  refine nodup_of_length_le_size (fun k hk => mem_ofPuts.1 hk) ?_
  rw [List.length_map, h]

theorem keys_moveToEnd {d : Dict κ ν} {k : κ} (hk : k ∈ d) :
    (d.moveToEnd k).keys = d.keys.erase k ++ [k] := by
  have hothers : (d.entries.filter fun entry => entry.1 ≠ k).map Prod.fst = d.keys.erase k := by
    rw [keys, d.nodup_keys.erase_eq_filter, List.filter_map]
    congr 1
    apply List.filter_congr
    intro entry _
    simp [bne, beq_eq_decide]
  have hlast : (d.entries.filter fun entry => entry.1 = k).map Prod.fst = [k] := by
    have hfilter : (d.entries.filter fun entry => entry.1 = k).map Prod.fst =
        d.keys.filter fun key => key == k := by
      rw [keys, List.filter_map]
      congr 1
    have hcount : d.keys.count k = 1 := List.count_eq_one_of_mem d.nodup_keys hk
    rw [hfilter, List.filter_beq, hcount]
    rfl
  rw [keys, moveToEnd, List.map_append, hothers, hlast]

theorem keys_put (d : Dict κ ν) (k : κ) (v : ν) : (d.put k v).keys = d.keys.erase k ++ [k] := by
  rw [put, keys_moveToEnd (mem_set.2 (Or.inl rfl))]
  by_cases hk : k ∈ d
  · have hkeys : (d.set k v).keys = d.keys := by
      rw [keys, entries_set_of_mem v hk, keys, List.map_map]
      apply List.map_congr_left
      intro entry _
      by_cases hentry : entry.1 = k
      · simp [hentry]
      · simp [hentry]
    rw [hkeys]
  · have hkeys : (d.set k v).keys = d.keys ++ [k] := by
      rw [keys, entries_set_of_not_mem v hk, List.map_append]
      rfl
    rw [hkeys, List.erase_append_right _ hk, List.erase_cons_head, List.append_nil,
      List.erase_of_not_mem hk]

omit [DecidableEq κ] in
theorem entries_trim (n : ℕ) (d : Dict κ ν) :
    (d.trim n).entries = d.entries.drop (d.size - n) := by
  have hpops : ∀ m (e : Dict κ ν), (popFirst^[m] e).entries = e.entries.drop m := by
    intro m
    induction m with
    | zero => exact fun e => rfl
    | succ m ih =>
        intro e
        rw [Function.iterate_succ_apply, ih, popFirst, List.drop_tail]
  exact hpops _ d

omit [DecidableEq κ] in
theorem size_trim_le (n : ℕ) (d : Dict κ ν) : (d.trim n).size ≤ n := by
  rw [size, entries_trim, List.length_drop, size]
  omega

omit [DecidableEq κ] in
theorem keys_trim (n : ℕ) (d : Dict κ ν) : (d.trim n).keys <:+ d.keys := by
  rw [keys, entries_trim, keys, List.map_drop]
  exact List.drop_suffix _ _

theorem get?_of_trim {n : ℕ} {d : Dict κ ν} {k : κ} {v : ν} (h : (d.trim n).get? k = some v) :
    d.get? k = some v := by
  rw [get?_eq_some_iff, entries_trim] at h
  exact get?_eq_some_iff.2 (List.mem_of_mem_drop h)

end Dict

/-! ## The order of use -/

/-- The later key is used at a moment after which the earlier one is not. -/
def UsedAfter (uses : List κ) (earlier later : κ) : Prop :=
  ∃ before after, uses = before ++ later :: after ∧ earlier ∉ later :: after

/-- The keys are the last ones used, each at its last use. -/
def Recent (keys uses : List κ) : Prop := keys <:+ uses.dedup

theorem dedup_concat (uses : List κ) (k : κ) :
    (uses ++ [k]).dedup = uses.dedup.erase k ++ [k] := by
  induction uses with
  | nil => rfl
  | cons a rest ih =>
      rw [List.cons_append]
      by_cases hrest : a ∈ rest
      · rw [List.dedup_cons_of_mem (List.mem_append_left _ hrest), ih,
          List.dedup_cons_of_mem hrest]
      · by_cases hak : a = k
        · subst hak
          rw [List.dedup_cons_of_mem (by simp), ih, List.dedup_cons_of_notMem hrest,
            List.erase_cons_head, List.erase_of_not_mem (by simpa using hrest)]
        · rw [List.dedup_cons_of_notMem (by simp [hrest, hak]), ih,
            List.dedup_cons_of_notMem hrest, List.erase_cons_tail (by simpa using hak)]
          rfl

/-- A use moves its key to the end. -/
theorem Recent.use {keys uses : List κ} (h : Recent keys uses) (k : κ) :
    Recent (keys.erase k ++ [k]) (uses ++ [k]) := by
  obtain ⟨gone, hgone⟩ := h
  rw [Recent, dedup_concat, ← hgone]
  have hnodup : (gone ++ keys).Nodup := hgone ▸ List.nodup_dedup uses
  by_cases hk : k ∈ gone
  · have hkeys : k ∉ keys := fun hmem => (List.nodup_append'.1 hnodup).2.2 hk hmem
    rw [List.erase_append_left _ hk, List.erase_of_not_mem hkeys, List.append_assoc]
    exact List.suffix_append _ _
  · rw [List.erase_append_right _ hk, List.append_assoc]
    exact List.suffix_append _ _

theorem Recent.mem {keys uses : List κ} (h : Recent keys uses) {k : κ} (hk : k ∈ keys) :
    k ∈ uses := List.mem_dedup.1 (h.subset hk)

theorem Recent.suffix {keys keys' uses : List κ} (h : Recent keys uses) (hkeys : keys' <:+ keys) :
    Recent keys' uses := hkeys.trans h

/-- What stands later in the record of last uses was used after what stands before. -/
theorem usedAfter_of_dedup {uses first second : List κ} (hsplit : uses.dedup = first ++ second)
    {earlier later : κ} (hearlier : earlier ∈ first) (hlater : later ∈ second) :
    UsedAfter uses earlier later := by
  induction uses generalizing first with
  | nil =>
      obtain rfl := (List.append_eq_nil_iff.1 hsplit.symm).1
      cases hearlier
  | cons a rest ih =>
      by_cases hrest : a ∈ rest
      · rw [List.dedup_cons_of_mem hrest] at hsplit
        obtain ⟨before, after, rfl, hafter⟩ := ih hsplit hearlier
        exact ⟨a :: before, after, rfl, hafter⟩
      · rw [List.dedup_cons_of_notMem hrest] at hsplit
        cases first with
        | nil => cases hearlier
        | cons b first =>
            obtain ⟨rfl, htail⟩ := List.cons.inj hsplit
            rcases List.mem_cons.1 hearlier with rfl | hearlier
            · have hmem : later ∈ rest := by
                rw [← List.mem_dedup, htail]
                exact List.mem_append_right _ hlater
              obtain ⟨before, after, rfl⟩ := List.append_of_mem hmem
              refine ⟨earlier :: before, after, rfl, fun hagain => hrest ?_⟩
              exact List.mem_append_right _ hagain
            · obtain ⟨before, after, rfl, hafter⟩ := ih htail hearlier
              exact ⟨a :: before, after, rfl, hafter⟩

/-- A key that is no longer there was last used before all that are. -/
theorem Recent.usedAfter {keys uses : List κ} (h : Recent keys uses) {gone kept : κ}
    (hused : gone ∈ uses) (hgone : gone ∉ keys) (hkept : kept ∈ keys) :
    UsedAfter uses gone kept := by
  obtain ⟨first, hsplit⟩ := h
  rw [← List.mem_dedup, ← hsplit] at hused
  exact usedAfter_of_dedup hsplit.symm ((List.mem_append.1 hused).resolve_right hgone) hkept

end DealFinder.Math
