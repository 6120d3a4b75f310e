/-
# One path's table of clients

What each operation of the limiter does to the queue of one client. A queue of
a reachable table is never empty, is sorted, lies in the past and holds at most
`limit` stamps (`QueueOk`), so popping its expired stamps leaves its live part.

A cleanup forgets a client for one of two reasons: its queue is idle, or it is
evicted. `Evicts` states the second reason by counting, without the sort and
the slice the code uses.
-/

import DealFinder.Limits.Ratelimit
import DealFinder.Math.SlidingWindow

namespace DealFinder.Limits

open DealFinder.Math

namespace SlidingWindowRateLimiter

variable {w : SlidingWindowRateLimiter} {maxKeys : ℕ} {key other : String} {now later : ℚ}
variable {ev : List ℚ}

/-- The queue of a client, empty for an untracked one. -/
def queue (w : SlidingWindowRateLimiter) (key : String) : List ℚ := w.events.getD key []

/-- A queue that an admission at or before `now` can have left. -/
structure QueueOk (limit : ℕ) (now : ℚ) (ev : List ℚ) : Prop where
  nonempty : ev ≠ []
  sorted : ev.Pairwise (· ≤ ·)
  past : ∀ t ∈ ev, t ≤ now
  length_le : ev.length ≤ limit

theorem QueueOk.mono {limit : ℕ} (h : QueueOk limit now ev) (hle : now ≤ later) :
    QueueOk limit later ev :=
  { h with past := fun t ht => (h.past t ht).trans hle }

/-- Every tracked client has a well-formed queue. -/
def Valid (w : SlidingWindowRateLimiter) (now : ℚ) : Prop :=
  ∀ key ev, w.events.get? key = some ev → QueueOk w.limit now ev

theorem Valid.mono (h : w.Valid now) (hle : now ≤ later) : w.Valid later :=
  fun key ev hget => (h key ev hget).mono hle

theorem queue_of_get?_eq_some (hget : w.events.get? key = some ev) : w.queue key = ev := by
  simp [queue, Dict.getD, hget]

theorem queue_of_not_mem (hmem : key ∉ w.events) : w.queue key = [] := by
  simp [queue, Dict.getD, Dict.get?_eq_none_iff.2 hmem]

theorem Valid.queue_sorted (h : w.Valid now) (key : String) :
    (w.queue key).Pairwise (· ≤ ·) := by
  cases hget : w.events.get? key with
  | none => simp [queue, Dict.getD, hget]
  | some ev =>
      rw [queue_of_get?_eq_some hget]
      exact (h key ev hget).sorted

theorem Valid.queue_past (h : w.Valid now) (key : String) : ∀ t ∈ w.queue key, t ≤ now := by
  cases hget : w.events.get? key with
  | none => simp [queue, Dict.getD, hget]
  | some ev =>
      rw [queue_of_get?_eq_some hget]
      exact (h key ev hget).past

/-- A sorted queue is idle exactly when all its stamps have expired. -/
theorem idle_iff (hsorted : ev.Pairwise (· ≤ ·)) :
    w.idle now ev = true ↔ ∀ t ∈ ev, t ≤ now - w.window := by
  rcases List.eq_nil_or_concat' ev with rfl | ⟨init, last, rfl⟩
  · simp [idle]
  · simp only [idle, List.getLast?_append, List.getLast?_singleton, Option.some_or,
      decide_eq_true_eq]
    constructor
    · intro hlast t ht
      rcases List.mem_append.1 ht with ht | ht
      · exact ((List.pairwise_append.1 hsorted).2.2 t ht last (by simp)).trans hlast
      · rw [List.mem_singleton.1 ht]
        exact hlast
    · intro hall
      exact hall last (by simp)

theorem not_idle_of_mem (hsorted : ev.Pairwise (· ≤ ·)) {t : ℚ} (ht : t ∈ ev)
    (hlive : now - w.window < t) : w.idle now ev = false := by
  by_contra hidle
  rw [Bool.not_eq_false, idle_iff hsorted] at hidle
  exact absurd (hidle t ht) (not_le.2 hlive)

/-! ## Asking a window -/

section Allow

@[simp] theorem allow_limit (w : SlidingWindowRateLimiter) (key : String) (now : ℚ) :
    (w.allow key now).2.limit = w.limit := by
  simp only [allow]
  split_ifs <;> rfl

@[simp] theorem allow_window (w : SlidingWindowRateLimiter) (key : String) (now : ℚ) :
    (w.allow key now).2.window = w.window := by
  simp only [allow]
  split_ifs <;> rfl

/-- Of a sorted queue, asking compares the live part with the limit and leaves that part, with
`now` appended when it admits. -/
theorem allow_of_sorted (hsorted : (w.queue key).Pairwise (· ≤ ·)) (now : ℚ) :
    w.allow key now =
      if (live w.window now (w.queue key)).length < w.limit then
        (true, { w with events := w.events.set key (live w.window now (w.queue key) ++ [now]) })
      else (false, { w with events := w.events.set key (live w.window now (w.queue key)) }) := by
  have hasked : w.allow key now =
      if w.limit ≤ (live w.window now (w.queue key)).length then
        (false, { w with events := w.events.set key (live w.window now (w.queue key)) })
      else
        (true, { w with
          events := w.events.set key (live w.window now (w.queue key) ++ [now]) }) := by
    rw [← dropWhile_eq_live hsorted]
    rfl
  rw [hasked]
  by_cases hroom : (live w.window now (w.queue key)).length < w.limit
  · rw [if_pos hroom, if_neg (not_le.2 hroom)]
  · rw [if_neg hroom, if_pos (not_lt.1 hroom)]

/-- The queues of a well-formed table are sorted. -/
theorem allow_eq (h : w.Valid later) (key : String) (now : ℚ) :
    w.allow key now =
      if (live w.window now (w.queue key)).length < w.limit then
        (true, { w with events := w.events.set key (live w.window now (w.queue key) ++ [now]) })
      else (false, { w with events := w.events.set key (live w.window now (w.queue key)) }) :=
  allow_of_sorted (h.queue_sorted key) now

/-- A request is admitted exactly when fewer than `limit` recorded ones are live. -/
theorem allow_fst_of_sorted (hsorted : (w.queue key).Pairwise (· ≤ ·)) (now : ℚ) :
    (w.allow key now).1 = decide ((live w.window now (w.queue key)).length < w.limit) := by
  rw [allow_of_sorted hsorted]
  by_cases hroom : (live w.window now (w.queue key)).length < w.limit
  · rw [if_pos hroom, decide_eq_true hroom]
  · rw [if_neg hroom, decide_eq_false hroom]

theorem allow_fst (h : w.Valid later) (key : String) (now : ℚ) :
    (w.allow key now).1 = decide ((live w.window now (w.queue key)).length < w.limit) :=
  allow_fst_of_sorted (h.queue_sorted key) now

/-- The queue of the asking client afterwards: pruned, with `now` if admitted. -/
theorem allow_get?_self (h : w.Valid later) (key : String) (now : ℚ) :
    (w.allow key now).2.events.get? key =
      some (live w.window now (w.queue key) ++ if (w.allow key now).1 then [now] else []) := by
  rw [allow_eq h]
  by_cases hroom : (live w.window now (w.queue key)).length < w.limit
  · simp [if_pos hroom]
  · simp [if_neg hroom]

theorem allow_get?_of_ne (w : SlidingWindowRateLimiter) (now : ℚ) (hne : other ≠ key) :
    (w.allow key now).2.events.get? other = w.events.get? other := by
  simp only [allow]
  split_ifs <;> exact Dict.get?_set_of_ne _ _ hne

theorem allow_size_of_mem (now : ℚ) (hmem : key ∈ w.events) :
    (w.allow key now).2.events.size = w.events.size := by
  simp only [allow]
  split_ifs <;> exact Dict.size_set_of_mem _ hmem

theorem allow_size_of_not_mem (now : ℚ) (hmem : key ∉ w.events) :
    (w.allow key now).2.events.size = w.events.size + 1 := by
  simp only [allow]
  split_ifs <;> exact Dict.size_set_of_not_mem _ hmem

theorem allow_valid (h : w.Valid now) (key : String) : (w.allow key now).2.Valid now := by
  intro k ev hget
  rw [allow_limit]
  by_cases hk : k = key
  · subst hk
    have hsub := live_sublist w.window now (w.queue k)
    have hsorted := (h.queue_sorted k).sublist hsub
    have hpast : ∀ t ∈ live w.window now (w.queue k), t ≤ now :=
      fun t ht => h.queue_past k t (hsub.subset ht)
    have hlimit := w.limit_pos
    rw [allow_get?_self h, allow_fst h, Option.some.injEq] at hget
    subst hget
    by_cases hroom : (live w.window now (w.queue k)).length < w.limit
    · simp only [hroom, decide_true, if_true]
      refine ⟨by simp, ?_, ?_, by rwa [List.length_append, List.length_singleton]⟩
      · exact List.pairwise_append.2 ⟨hsorted, List.pairwise_singleton _ _, by simpa using hpast⟩
      · simpa [or_imp, forall_and] using hpast
    · -- The queue stays full, so it is neither empty nor longer than before.
      have hlength : (w.queue k).length ≤ w.limit := by
        cases hold : w.events.get? k with
        | none => simp [queue, Dict.getD, hold]
        | some old =>
            rw [queue_of_get?_eq_some hold]
            exact (h k old hold).length_le
      simp only [hroom, decide_false, Bool.false_eq_true, if_false, List.append_nil]
      refine ⟨?_, hsorted, hpast, hsub.length_le.trans hlength⟩
      exact List.ne_nil_of_length_pos (by omega)
  · rw [allow_get?_of_ne w now hk] at hget
    exact h k ev hget

end Allow

/-! ## Cleaning a window -/

/-- `(ev[-1], k)` of a client, the mark by which a cleanup orders it. -/
def mark (last : ℚ) (key : String) : ℚ ×ₗ String := toLex (last, key)

/-- A cleanup at `now` evicts this client although its queue is live: it is
below its limit, and fewer than `excess` such clients come before it in the
order (last seen, key). -/
def Evicts (maxKeys : ℕ) (w : SlidingWindowRateLimiter) (now : ℚ) (key : String) : Prop :=
  ∃ ev last, w.events.get? key = some ev ∧ ev.getLast? = some last ∧
    now - w.window < last ∧ ev.length < w.limit ∧
    (rank (w.openKeys (w.nonIdle now)) (mark last key) : ℤ) < excess maxKeys w now

instance : Decidable (Evicts maxKeys w now key) :=
  match hget : w.events.get? key with
  | none => isFalse fun ⟨_, _, hev, _⟩ => by cases hget.symm.trans hev
  | some ev =>
      match hlast : ev.getLast? with
      | none => isFalse fun ⟨_, _, hev, hmark, _⟩ => by
          obtain rfl := Option.some.inj (hget.symm.trans hev)
          cases hlast.symm.trans hmark
      | some last =>
          decidable_of_iff
            (now - w.window < last ∧ ev.length < w.limit ∧
              (rank (w.openKeys (w.nonIdle now)) (mark last key) : ℤ) < excess maxKeys w now)
            ⟨fun h => ⟨ev, last, hget, hlast, h⟩, fun ⟨_, _, hev, hmark, h⟩ => by
              obtain rfl := Option.some.inj (hget.symm.trans hev)
              obtain rfl := Option.some.inj (hlast.symm.trans hmark)
              exact h⟩

theorem nonIdle_get? (w : SlidingWindowRateLimiter) (now : ℚ) (key : String) :
    (w.nonIdle now).get? key = (w.events.get? key).filter fun ev => !w.idle now ev :=
  Dict.get?_filter _ _ _

theorem mem_openKeys {table : Dict String (List ℚ)} (last : ℚ) (key : String) :
    mark last key ∈ w.openKeys table ↔
      ∃ ev, table.get? key = some ev ∧ ev.length < w.limit ∧ ev.getLast? = some last := by
  simp only [openKeys, mark, List.mem_filterMap]
  constructor
  · rintro ⟨⟨k, ev⟩, hmem, hmark⟩
    by_cases hopen : ev.length < w.limit
    · rw [if_pos hopen, Option.map_eq_some_iff] at hmark
      obtain ⟨t, ht, heq⟩ := hmark
      obtain ⟨rfl, rfl⟩ := Prod.ext_iff.1 (toLex_inj.1 heq)
      exact ⟨ev, Dict.get?_eq_some_iff.2 hmem, hopen, ht⟩
    · rw [if_neg hopen] at hmark
      cases hmark
  · rintro ⟨ev, hget, hopen, hlast⟩
    exact ⟨(key, ev), Dict.get?_eq_some_iff.1 hget, by simp [hopen, hlast]⟩

/-- A client is listed once among those below their limit. -/
theorem openKeys_keys_nodup (w : SlidingWindowRateLimiter) (table : Dict String (List ℚ)) :
    ((w.openKeys table).map fun e => (ofLex e).2).Nodup := by
  have hkeys : table.entries.Pairwise fun a b => a.1 ≠ b.1 :=
    List.pairwise_map.1 table.nodup_keys
  apply List.pairwise_map.2
  refine List.Pairwise.filterMap _ (fun a b hne x hx y hy hxy => hne ?_) hkeys
  simp only [Option.ite_none_right_eq_some, Option.map_eq_some_iff] at hx hy
  obtain ⟨-, t, -, rfl⟩ := hx
  obtain ⟨-, s, -, rfl⟩ := hy
  exact hxy

theorem openKeys_nodup (w : SlidingWindowRateLimiter) (table : Dict String (List ℚ)) :
    (w.openKeys table).Nodup :=
  (openKeys_keys_nodup w table).of_map

@[simp] theorem shrink_limit (w : SlidingWindowRateLimiter) (maxKeys : ℕ) (now : ℚ) :
    (w.shrink maxKeys now).limit = w.limit := by
  simp only [shrink]
  split_ifs <;> rfl

@[simp] theorem shrink_window (w : SlidingWindowRateLimiter) (maxKeys : ℕ) (now : ℚ) :
    (w.shrink maxKeys now).window = w.window := by
  simp only [shrink]
  split_ifs <;> rfl

/-- The keys in the slice `open_keys[:excess]` are those of the evicted clients. -/
theorem mem_evicted_iff (key : String) (hexcess : 0 < excess maxKeys w now) :
    key ∈ (((w.openKeys (w.nonIdle now)).insertionSort (· ≤ ·)).take
        (excess maxKeys w now).toNat).map (fun e => (ofLex e).2) ↔
      Evicts maxKeys w now key := by
  have hrank : ∀ m : ℕ, m < (excess maxKeys w now).toNat ↔ (m : ℤ) < excess maxKeys w now := by
    intro m
    omega
  simp only [List.mem_map, mem_take_insertionSort_iff (openKeys_nodup w _), hrank]
  constructor
  · rintro ⟨e, ⟨hopen, hlow⟩, rfl⟩
    obtain ⟨ev, hget, hlength, hlast⟩ := (mem_openKeys (ofLex e).1 (ofLex e).2).1 hopen
    rw [nonIdle_get?, Option.filter_eq_some_iff] at hget
    refine ⟨ev, (ofLex e).1, hget.1, hlast, ?_, hlength, hlow⟩
    simpa [idle, hlast] using hget.2
  · rintro ⟨ev, last, hget, hlast, hlive, hlength, hlow⟩
    refine ⟨mark last key, ⟨(mem_openKeys last key).2 ⟨ev, ?_, hlength, hlast⟩, hlow⟩, rfl⟩
    rw [nonIdle_get?, hget]
    simpa [idle, hlast] using hlive

/-- A cleanup keeps exactly the clients that are neither idle nor evicted. -/
theorem shrink_get?_eq_some_iff :
    (w.shrink maxKeys now).events.get? key = some ev ↔
      w.events.get? key = some ev ∧ w.idle now ev = false ∧ ¬ Evicts maxKeys w now key := by
  have hkept : (w.nonIdle now).get? key = some ev ↔
      w.events.get? key = some ev ∧ w.idle now ev = false := by
    simp [nonIdle_get?, Option.filter_eq_some_iff]
  by_cases hexcess : excess maxKeys w now ≤ 0
  · have hnever : ¬ Evicts maxKeys w now key := by
      rintro ⟨ev, last, -, -, -, -, hlow⟩
      exact absurd (lt_of_le_of_lt (Int.natCast_nonneg _) hlow) (not_lt.2 hexcess)
    simp only [shrink, if_pos hexcess, hkept, hnever, not_false_eq_true, and_true]
  · have hevicted := mem_evicted_iff key (not_le.1 hexcess)
    simp only [shrink, if_neg hexcess, Dict.get?_eraseAll]
    by_cases hout : Evicts maxKeys w now key
    · rw [if_pos (hevicted.2 hout)]
      simp [hout]
    · rw [if_neg (mt hevicted.1 hout), hkept]
      simp [hout]

theorem shrink_mem (hmem : key ∈ (w.shrink maxKeys now).events) : key ∈ w.events := by
  obtain ⟨ev, hget⟩ := Option.isSome_iff_exists.1 (Dict.get?_isSome_iff.2 hmem)
  exact Dict.mem_of_get?_eq_some (shrink_get?_eq_some_iff.1 hget).1

theorem shrink_size_le (w : SlidingWindowRateLimiter) (maxKeys : ℕ) (now : ℚ) :
    (w.shrink maxKeys now).events.size ≤ w.events.size := by
  have hidle : (w.nonIdle now).size ≤ w.events.size := Dict.size_filter_le _ _
  simp only [shrink]
  split_ifs
  · exact hidle
  · exact (Dict.size_eraseAll_le _ _).trans hidle

theorem shrink_valid (h : w.Valid later) : (w.shrink maxKeys now).Valid later := by
  intro k ev hget
  rw [shrink_limit]
  exact h k ev (shrink_get?_eq_some_iff.1 hget).1

end SlidingWindowRateLimiter

end DealFinder.Limits
