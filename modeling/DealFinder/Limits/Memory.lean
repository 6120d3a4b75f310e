/-
# The memory of the limiter

A cleanup forgets idle clients, and of the others as many below their limit as are too many, so it
leaves no more clients than it aims at, or else only clients at their limit. No path's table ever
holds more than twice the cap, and two cleanups of a path are a second apart
(`memoryBounded_run`).
-/

import DealFinder.Limits.Bound
import Mathlib.Data.List.Perm.Subperm

namespace DealFinder.Limits

open DealFinder.Math SlidingWindowRateLimiter Limiter

/-! ## Cleanups -/

/-- A call of `_shrink`: when it ran, and the table before and after. -/
structure Cleanup where
  now : ℚ
  before : SlidingWindowRateLimiter
  after : SlidingWindowRateLimiter

section Cleanups

variable (maxKeys : ℕ) (lastShrink : Option ℚ) (w : SlidingWindowRateLimiter) (key : String)
variable (now : ℚ)

/-- The cleanup that `_maybe_shrink` runs, if it is due. -/
def maybeCleanup : List Cleanup :=
  if shrinkDue lastShrink now then [⟨now, w, w.shrink maxKeys now⟩] else []

/-- The cleanups of `askWindow`. -/
def askCleanups : List Cleanup :=
  let asked := (w.allow key now).2
  if maxKeys < asked.events.size then maybeCleanup maxKeys lastShrink asked now else []

/-- The cleanups of `checkWindow`: before asking, at the ceiling, and after it. -/
def checkCleanups : List Cleanup :=
  if key ∉ w.events ∧ 2 * maxKeys ≤ w.events.size then
    let cleaned := maybeShrink maxKeys lastShrink w now
    maybeCleanup maxKeys lastShrink w now ++
      if 2 * maxKeys ≤ cleaned.2.events.size then []
      else askCleanups maxKeys cleaned.1 cleaned.2 key now
  else askCleanups maxKeys lastShrink w key now

end Cleanups

/-- The cleanups of one path by one request. -/
def cleanupsOf (path : String) (lim : Limiter) (request : Request) : List Cleanup :=
  if request.path = path then
    match lim.windows.get? path with
    | none => []
    | some w =>
        checkCleanups lim.maxKeys (lim.lastShrink.get? path) w (keyOf path request.client)
          request.now
  else []

/-- The cleanups of one path along a run. -/
def cleanups (lim : Limiter) (path : String) (requests : List Request) : List Cleanup :=
  machine.collect (cleanupsOf path) lim requests

/-- A queue with as many stamps as are allowed, the last one inside the window. -/
def SlidingWindowRateLimiter.atLimit (w : SlidingWindowRateLimiter) (now : ℚ) (ev : List ℚ) :
    Bool :=
  decide (ev.length = w.limit) && ev.getLast?.any fun last => decide (now - w.window < last)

/-- How many clients are at their limit. -/
def SlidingWindowRateLimiter.limitedClients (w : SlidingWindowRateLimiter) (now : ℚ) : ℕ :=
  (w.events.filter fun _ ev => w.atLimit now ev).size

/-- What holds of the memory that a path takes, after a run and at each of its cleanups. -/
structure MemoryBounded (lim : Limiter) (path : String) (requests : List Request) : Prop where
  ceiling : ∀ w, (machine.run lim requests).windows.get? path = some w →
    w.events.size ≤ 2 * lim.maxKeys
  cleaned : ∀ c ∈ cleanups lim path requests,
    c.after.events.size ≤ max (cleanupTarget lim.maxKeys) (c.before.limitedClients c.now)
  spared : ∀ c ∈ cleanups lim path requests, ∀ key ev, c.before.events.get? key = some ev →
    c.before.atLimit c.now ev = true → c.after.events.get? key = some ev
  apart : (cleanups lim path requests).Pairwise fun c d => shrinkEveryS ≤ d.now - c.now

/-! ## One cleanup -/

/-- What a filter keeps falls into two parts, counted apart. -/
private theorem length_filter_eq_add {α β : Type} {l : List α} {p q : α → Bool}
    {f : α → Option β} (hq : ∀ a ∈ l, q a = true → p a = true)
    (hf : ∀ a ∈ l, p a = true → (f a).isSome = !q a) :
    (l.filter p).length = ((l.filter p).filterMap f).length + (l.filter q).length := by
  induction l with
  | nil => rfl
  | cons a rest ih =>
      have hrest := ih (fun b hb => hq b (List.mem_cons_of_mem a hb))
        (fun b hb => hf b (List.mem_cons_of_mem a hb))
      by_cases hp : p a = true
      · rw [List.filter_cons_of_pos hp, List.length_cons, hrest]
        have hsome := hf a List.mem_cons_self hp
        cases hqa : q a with
        | true =>
            rw [hqa, Bool.not_true, Option.isSome_eq_false_iff, Option.isNone_iff_eq_none] at hsome
            rw [List.filterMap_cons_none hsome, List.filter_cons_of_pos hqa, List.length_cons]
            exact Nat.add_assoc ..
        | false =>
            rw [hqa, Bool.not_false, Option.isSome_iff_exists] at hsome
            obtain ⟨b, hb⟩ := hsome
            rw [List.filterMap_cons_some hb, List.filter_cons_of_neg (by simp [hqa]),
              List.length_cons]
            omega
      · have hqa : ¬ q a = true := fun hqa => hp (hq a List.mem_cons_self hqa)
        rw [List.filter_cons_of_neg hp, List.filter_cons_of_neg hqa, hrest]

namespace SlidingWindowRateLimiter

variable {w : SlidingWindowRateLimiter} {maxKeys : ℕ} {now : ℚ} {ev : List ℚ}

theorem idle_of_atLimit (h : w.atLimit now ev = true) : w.idle now ev = false := by
  rw [atLimit, Bool.and_eq_true, Option.any_eq_true] at h
  obtain ⟨-, last, hlast, hlive⟩ := h
  rw [idle, hlast]
  simpa using hlive

/-- A cleanup keeps the clients that are at their limit. -/
theorem shrink_get?_of_atLimit {key : String} (hget : w.events.get? key = some ev)
    (h : w.atLimit now ev = true) : (w.shrink maxKeys now).events.get? key = some ev := by
  apply shrink_get?_eq_some_iff.2
  refine ⟨hget, idle_of_atLimit h, fun hevicts => ?_⟩
  obtain ⟨ev', last, hget', -, -, hbelow, -⟩ := hevicts
  rw [hget, Option.some_inj] at hget'
  rw [atLimit, Bool.and_eq_true, decide_eq_true_iff, hget'] at h
  omega

/-- A client that is not idle is at its limit, or else it is below it. -/
theorem atLimit_of_not_idle (hlive : w.idle now ev = false) :
    w.atLimit now ev = decide (ev.length = w.limit) := by
  rw [idle] at hlive
  cases hlast : ev.getLast? with
  | none =>
      rw [hlast] at hlive
      cases hlive
  | some last =>
      rw [hlast] at hlive
      rw [atLimit, hlast, Option.any_some, decide_eq_true (not_le.1 (of_decide_eq_false hlive)),
        Bool.and_true]

/-- The clients that are not idle are those below their limit and those at it. -/
theorem size_nonIdle (h : w.Valid now) :
    (w.nonIdle now).size = (w.openKeys (w.nonIdle now)).length + w.limitedClients now := by
  apply length_filter_eq_add
  · intro entry _ hlimited
    exact Bool.not_eq_true' _ ▸ idle_of_atLimit hlimited
  · intro entry hmem hlive
    have hqueue := h entry.1 entry.2 (Dict.get?_eq_some_iff.2 hmem)
    have hlast : entry.2.getLast?.isSome = true := by
      rw [Option.isSome_iff_ne_none, ne_eq, List.getLast?_eq_none_iff]
      exact hqueue.nonempty
    have hstill : w.idle now entry.2 = false := by simpa using hlive
    have hsplit := atLimit_of_not_idle hstill
    by_cases hopen : entry.2.length < w.limit
    · rw [decide_eq_false hopen.ne] at hsplit
      rw [if_pos hopen, Option.isSome_map, hlast]
      exact (congrArg not hsplit).symm
    · rw [decide_eq_true (le_antisymm hqueue.length_le (not_lt.1 hopen))] at hsplit
      rw [if_neg hopen]
      exact (congrArg not hsplit).symm

/-- **What a cleanup leaves.** No more clients than it aims at, or else only those at their
limit. -/
theorem shrink_size (h : w.Valid now) : (w.shrink maxKeys now).events.size ≤
    max (cleanupTarget maxKeys) (w.limitedClients now) := by
  by_cases hexcess : excess maxKeys w now ≤ 0
  · have hsmall : (w.nonIdle now).size ≤ cleanupTarget maxKeys := by
      rw [excess] at hexcess
      omega
    simp only [shrink, if_pos hexcess]
    exact hsmall.trans (le_max_left _ _)
  · -- The clients in the slice are tracked and distinct, so erasing them erases that many.
    let open_keys := (w.openKeys (w.nonIdle now)).insertionSort (· ≤ ·)
    let gone := (open_keys.take (excess maxKeys w now).toNat).map fun e => (ofLex e).2
    have hperm : open_keys.Perm (w.openKeys (w.nonIdle now)) := List.perm_insertionSort _ _
    have hnodup : gone.Nodup :=
      ((hperm.map _).nodup_iff.2 (openKeys_keys_nodup w _)).sublist
        ((List.take_sublist _ _).map _)
    have hin : ∀ k ∈ gone, k ∈ w.nonIdle now := by
      intro k hk
      obtain ⟨e, he, rfl⟩ := List.mem_map.1 hk
      obtain ⟨ev, hget, -⟩ := (mem_openKeys (ofLex e).1 (ofLex e).2).1
        (hperm.subset (List.take_subset _ _ he))
      exact Dict.mem_of_get?_eq_some hget
    have herase := Dict.size_eraseAll_add_le hnodup hin
    have hlength : gone.length =
        min (excess maxKeys w now).toNat (w.openKeys (w.nonIdle now)).length := by
      rw [List.length_map, List.length_take, hperm.length_eq]
    have hsize := size_nonIdle h
    have hover : excess maxKeys w now = (w.nonIdle now).size - cleanupTarget maxKeys := rfl
    have hleft : ((w.nonIdle now).eraseAll gone).size ≤
        max (cleanupTarget maxKeys) (w.limitedClients now) := by
      omega
    simp only [shrink, if_neg hexcess]
    exact hleft

end SlidingWindowRateLimiter

/-! ## The cleanups of one check -/

section Check

variable {maxKeys : ℕ} {lastShrink : Option ℚ} {w table : SlidingWindowRateLimiter}
variable {key : String} {now : ℚ}

/-- The cleanup of a table. -/
def cleanupOf (maxKeys : ℕ) (now : ℚ) (table : SlidingWindowRateLimiter) : Cleanup :=
  ⟨now, table, table.shrink maxKeys now⟩

/-- A check runs at most one cleanup, of the table that it scans. -/
theorem checkCleanups_eq : checkCleanups maxKeys lastShrink w key now =
    ((cleanupTable maxKeys lastShrink w key now).map (cleanupOf maxKeys now)).toList := by
  by_cases hdue : shrinkDue lastShrink now = true
  · by_cases hfull : key ∉ w.events ∧ 2 * maxKeys ≤ w.events.size
    · have hask : ∀ v, askCleanups maxKeys (some now) v key now = [] := by
        intro v
        simp [askCleanups, maybeCleanup, shrinkDue_self]
      simp [checkCleanups, cleanupTable, if_pos hfull, maybeCleanup, maybeShrink, hdue, hask,
        cleanupOf]
    · simp only [checkCleanups, cleanupTable, if_neg hfull, if_pos hdue, askCleanups, maybeCleanup]
      split_ifs <;> rfl
  · simp [checkCleanups, cleanupTable, askCleanups, maybeCleanup, maybeShrink, hdue]

/-- A check records the time of its cleanup. -/
theorem checkWindow_lastShrink : (checkWindow maxKeys lastShrink w key now).2.1 =
    ((cleanupTable maxKeys lastShrink w key now).map fun _ => now).or lastShrink := by
  have hasked : ∀ last v, (askWindow maxKeys last v key now).2.1 =
      if maxKeys < (v.allow key now).2.events.size ∧ shrinkDue last now = true then some now
      else last := by
    intro last v
    rw [askWindow_eq]
    by_cases hgrown : maxKeys < (v.allow key now).2.events.size
    · by_cases hdue : shrinkDue last now = true
      · simp [hgrown, maybeShrink, hdue]
      · simp [hgrown, maybeShrink, hdue]
    · simp [hgrown]
  by_cases hfull : key ∉ w.events ∧ 2 * maxKeys ≤ w.events.size
  · simp only [checkWindow, cleanupTable, if_pos hfull]
    by_cases hdue : shrinkDue lastShrink now = true
    · simp only [maybeShrink, if_pos hdue]
      split_ifs
      · rfl
      · rw [hasked, if_neg fun h => absurd h.2 (by simp [shrinkDue_self])]
        rfl
    · simp [maybeShrink, hdue, hfull.2]
  · simp only [checkWindow, cleanupTable, if_neg hfull, hasked]
    split_ifs <;> simp_all

theorem shrinkDue_of_cleanupTable (h : cleanupTable maxKeys lastShrink w key now = some table) :
    shrinkDue lastShrink now = true := by
  by_contra hdue
  rw [cleanupTable, if_neg hdue] at h
  cases h

theorem valid_of_cleanupTable (hvalid : w.Valid now)
    (h : cleanupTable maxKeys lastShrink w key now = some table) : table.Valid now := by
  rw [cleanupTable, if_pos (shrinkDue_of_cleanupTable h)] at h
  split_ifs at h
  · exact Option.some_inj.1 h ▸ hvalid
  · exact Option.some_inj.1 h ▸ allow_valid hvalid key

end Check

/-! ## The cleanups of a run -/

section Run

variable {limits : Dict String (ℕ × ℚ)} {maxKeys : ℕ} {lim : Limiter} {path client : String}
variable {now : ℚ} {last : Option ℚ} {w table : SlidingWindowRateLimiter}
variable {past : List Cleanup} {request : Request}

theorem check_lastShrink_self (hpath : lim.windows.get? path = some w) :
    (lim.check path client now).2.lastShrink.get? path =
      (checkWindow lim.maxKeys (lim.lastShrink.get? path) w (keyOf path client) now).2.1 := by
  simp only [check, hpath]
  cases hchecked : (checkWindow lim.maxKeys (lim.lastShrink.get? path) w
      (keyOf path client) now).2.1 with
  | none =>
      rw [checkWindow_lastShrink, Option.or_eq_none_iff] at hchecked
      exact hchecked.2
  | some stamp => exact Dict.get?_set_self _ _ _

theorem check_lastShrink_other {other : String} (hne : other ≠ path) :
    (lim.check path client now).2.lastShrink.get? other = lim.lastShrink.get? other := by
  cases hpath : lim.windows.get? path with
  | none => rw [check_of_windows_none hpath]
  | some w =>
      simp only [check, hpath]
      split
      · rfl
      · exact Dict.get?_set_of_ne _ _ hne

/-- What the cleanups of one path keep true, the last of which ran at `last`. -/
structure Swept (maxKeys : ℕ) (last : Option ℚ) (past : List Cleanup) : Prop where
  last_eq : last = past.getLast?.map Cleanup.now
  cleaned : ∀ c ∈ past, c.before.Valid c.now ∧ c.after = c.before.shrink maxKeys c.now
  apart : past.Pairwise fun c d => shrinkEveryS ≤ d.now - c.now

/-- A cleanup that is due comes a second after all those before it. -/
theorem Swept.later (h : Swept maxKeys last past) (hdue : shrinkDue last now = true) :
    ∀ c ∈ past, shrinkEveryS ≤ now - c.now := by
  intro c hc
  rcases List.eq_nil_or_concat' past with rfl | ⟨init, final, rfl⟩
  · cases hc
  · rw [h.last_eq, List.getLast?_append, List.getLast?_singleton, Option.some_or,
      Option.map_some, shrinkDue, decide_eq_true_iff] at hdue
    rcases List.mem_append.1 hc with hc | hc
    · have hbefore := (List.pairwise_append.1 h.apart).2.2 c hc final (by simp)
      have hpos : (0 : ℚ) ≤ shrinkEveryS := zero_le_one
      calc shrinkEveryS ≤ shrinkEveryS + shrinkEveryS := le_add_of_nonneg_left hpos
        _ ≤ (now - final.now) + (final.now - c.now) := add_le_add hdue hbefore
        _ = now - c.now := sub_add_sub_cancel now final.now c.now
    · rw [List.mem_singleton.1 hc]
      exact hdue

theorem Swept.concat (h : Swept maxKeys last past) (hvalid : table.Valid now)
    (hdue : shrinkDue last now = true) :
    Swept maxKeys (some now) (past ++ [cleanupOf maxKeys now table]) where
  last_eq := by simp [cleanupOf]
  cleaned := by
    intro c hc
    rcases List.mem_append.1 hc with hc | hc
    · exact h.cleaned c hc
    · rw [List.mem_singleton.1 hc]
      exact ⟨hvalid, rfl⟩
  apart := by
    apply List.pairwise_append.2
    refine ⟨h.apart, List.pairwise_singleton _ _, fun c hc d hd => ?_⟩
    rw [List.mem_singleton.1 hd]
    exact h.later hdue c hc

theorem cleanupsOf_self (hfound : lim.windows.get? request.path = some w) :
    cleanupsOf request.path lim request =
      ((cleanupTable lim.maxKeys (lim.lastShrink.get? request.path) w
        (keyOf request.path request.client) request.now).map
          (cleanupOf lim.maxKeys request.now)).toList := by
  rw [← checkCleanups_eq]
  simp only [cleanupsOf, hfound, if_true]

/-- One request adds at most a cleanup that is due, and records its time. -/
theorem Swept.step (h : Swept lim.maxKeys (lim.lastShrink.get? path) past)
    (hvalid : ∀ w, lim.windows.get? path = some w → w.Valid request.now) :
    Swept lim.maxKeys ((machine.step lim request).2.lastShrink.get? path)
      (past ++ cleanupsOf path lim request) := by
  by_cases hpath : request.path = path
  · subst hpath
    cases hfound : lim.windows.get? request.path with
    | none =>
        have hsame : machine.step lim request = (.ok none, lim) :=
          check_of_windows_none hfound request.client request.now
        rw [hsame, cleanupsOf, if_pos rfl, hfound, List.append_nil]
        exact h
    | some w =>
        have hstamp : (machine.step lim request).2.lastShrink.get? request.path = _ :=
          check_lastShrink_self hfound
        rw [checkWindow_lastShrink] at hstamp
        rw [cleanupsOf_self hfound]
        cases htable : cleanupTable lim.maxKeys (lim.lastShrink.get? request.path) w
            (keyOf request.path request.client) request.now with
        | none =>
            rw [htable] at hstamp
            rw [Option.map_none, Option.toList_none, List.append_nil]
            exact hstamp.symm ▸ h
        | some table =>
            rw [htable] at hstamp
            rw [Option.map_some, Option.toList_some]
            exact hstamp.symm ▸ h.concat (valid_of_cleanupTable (hvalid w hfound) htable)
              (shrinkDue_of_cleanupTable htable)
  · rw [cleanupsOf, if_neg hpath, List.append_nil]
    exact (check_lastShrink_other (Ne.symm hpath)).symm ▸ h

/-- After any run, the table of a path is well formed and not past the ceiling. -/
theorem run_windows (hnew : Limiter.new limits maxKeys = .ok lim) (requests : List Request)
    (hchron : Chronological requests) (hnow : ∀ r ∈ requests, r.now ≤ now)
    (hfound : (machine.run lim requests).windows.get? path = some w) :
    w.Valid now ∧ w.events.size ≤ 2 * maxKeys := by
  cases hpath : limits.get? path with
  | none =>
      rw [run_windows_none hnew hpath] at hfound
      cases hfound
  | some limited =>
      obtain ⟨w', hserves⟩ := run_serves hnew hpath requests hchron hnow
      obtain rfl : w' = w := Option.some.inj (hserves.found.symm.trans hfound)
      exact ⟨hserves.valid, hserves.size_le⟩

theorem run_maxKeys (lim : Limiter) (requests : List Request) :
    (machine.run lim requests).maxKeys = lim.maxKeys := by
  induction requests using List.reverseRecOn with
  | nil => rfl
  | append_singleton past request ih =>
      rw [Machine.run_concat]
      exact check_maxKeys.trans ih

theorem run_swept (hnew : Limiter.new limits maxKeys = .ok lim) (requests : List Request)
    (hchron : Chronological requests) :
    Swept maxKeys ((machine.run lim requests).lastShrink.get? path)
      (cleanups lim path requests) := by
  induction requests using List.reverseRecOn with
  | nil =>
      obtain ⟨windows, -, rfl⟩ := new_inversion hnew
      exact ⟨rfl, fun c hc => absurd hc List.not_mem_nil, List.Pairwise.nil⟩
  | append_singleton past request ih =>
      have hswept := ih hchron.left
      rw [← new_maxKeys hnew, ← run_maxKeys lim past] at hswept ⊢
      rw [Machine.run_concat, cleanups, Machine.collect_concat]
      exact hswept.step fun w hfound => (run_windows hnew past hchron.left hchron.le_last hfound).1

/-- **The memory of the limiter is bounded**, along every run of a limiter as built. -/
theorem memoryBounded_run (hnew : Limiter.new limits maxKeys = .ok lim) (requests : List Request)
    (hchron : Chronological requests) (path : String) : MemoryBounded lim path requests where
  ceiling := by
    intro w hfound
    obtain ⟨now, hnow⟩ := hchron.exists_now
    rw [new_maxKeys hnew]
    exact (run_windows hnew requests hchron hnow hfound).2
  cleaned := by
    intro c hc
    obtain ⟨hvalid, hafter⟩ := (run_swept hnew requests hchron).cleaned c hc
    rw [hafter, new_maxKeys hnew]
    exact shrink_size hvalid
  spared := by
    intro c hc key ev hget hlimit
    rw [((run_swept hnew requests hchron).cleaned c hc).2]
    exact shrink_get?_of_atLimit hget hlimit
  apart := (run_swept hnew requests hchron).apart

end Run

/-- The same flood, and a third client a second later. -/
theorem memoryBounded_flood :
    MemoryBounded (twoAMinuteLimiter 1) "/ask" (floodRun ++ [⟨"/ask", "c", 1⟩]) :=
  memoryBounded_run (new_twoAMinute 1) _ (by decide +kernel) "/ask"

end DealFinder.Limits
