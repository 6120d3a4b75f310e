/-
# Runs of the limiter

A limiter built from a table of limits keeps, for every limited path, a window
with the configured limit and length, whose queues are well formed and which
holds at most `2 * max_keys` clients (`Serves`). A request touches only the
window of its own path (`check_windows_self`, `check_windows_other`).

`Ledger` ties the queue of one client to the list of its admitted requests: the
two agree on every stamp that is still live. The queue may have lost everything
else. A step keeps the ledger unless a cleanup evicts the client while its queue
is live (`SparesClient`).
-/

import DealFinder.Limits.Check

namespace DealFinder.Limits

open DealFinder.Math SlidingWindowRateLimiter Limiter

/-! ## The limiter as built -/

/-- A limit that the constructor accepts comes back as it was given. -/
theorem new_eq_ok {limit : ℕ} {window : ℚ} {w : SlidingWindowRateLimiter}
    (h : SlidingWindowRateLimiter.new limit window = .ok w) :
    w.limit = limit ∧ w.window = window ∧ w.events = .empty := by
  unfold SlidingWindowRateLimiter.new at h
  split_ifs at h with hlimit
  · cases h
    exact ⟨rfl, rfl, rfl⟩

private theorem foldlM_windows (entries : List (String × ℕ × ℚ)) :
    ∀ {start windows : Dict String SlidingWindowRateLimiter},
      entries.foldlM (fun windows entry => do
        let w ← SlidingWindowRateLimiter.new entry.2.1 entry.2.2
        pure (windows.set entry.1 w)) start = .ok windows →
      (entries.map Prod.fst).Nodup → ∀ path limit window, (path, limit, window) ∈ entries →
        ∃ w, windows.get? path = some w ∧ w.limit = limit ∧ w.window = window ∧
          w.events = .empty := by
  induction entries using List.reverseRecOn with
  | nil => simp
  | append_singleton init last ih =>
      intro start windows hfold hnodup path limit window hmem
      rw [List.foldlM_append] at hfold
      cases hinit : init.foldlM (fun windows entry => do
        let w ← SlidingWindowRateLimiter.new entry.2.1 entry.2.2
        pure (windows.set entry.1 w)) start with
      | error e => rw [hinit] at hfold; cases hfold
      | ok built =>
          rw [hinit] at hfold
          cases hlast : SlidingWindowRateLimiter.new last.2.1 last.2.2 with
          | error e => simp [hlast, bind, Except.bind] at hfold
          | ok w =>
              obtain rfl : built.set last.1 w = windows := by
                simpa [hlast, bind, Except.bind, pure, Except.pure] using hfold
              rw [List.map_append, List.nodup_append'] at hnodup
              rcases List.mem_append.1 hmem with hmem | hmem
              · have hne : path ≠ last.1 := by
                  rintro rfl
                  exact hnodup.2.2 (List.mem_map.2 ⟨_, hmem, rfl⟩) (by simp)
                rw [Dict.get?_set_of_ne _ _ hne]
                exact ih hinit hnodup.1 path limit window hmem
              · obtain rfl := List.mem_singleton.1 hmem
                exact ⟨w, Dict.get?_set_self _ _ _, new_eq_ok hlast⟩

/-- A limiter is built from its windows, which are built one after the other. -/
theorem new_inversion {limits : Dict String (ℕ × ℚ)} {maxKeys : ℕ} {lim : Limiter}
    (hnew : Limiter.new limits maxKeys = .ok lim) :
    ∃ windows, limits.entries.foldlM (fun windows entry => do
        let w ← SlidingWindowRateLimiter.new entry.2.1 entry.2.2
        pure (windows.set entry.1 w)) Dict.empty = .ok windows ∧
      lim = ⟨windows, maxKeys, .empty⟩ := by
  unfold Limiter.new at hnew
  cases hfold : limits.entries.foldlM (fun windows entry => do
      let w ← SlidingWindowRateLimiter.new entry.2.1 entry.2.2
      pure (windows.set entry.1 w)) (Dict.empty : Dict String SlidingWindowRateLimiter) with
  | error e =>
      rw [hfold] at hnew
      cases hnew
  | ok windows =>
      rw [hfold] at hnew
      cases hnew
      exact ⟨windows, rfl, rfl⟩

/-- The window of every limited path of a new limiter is empty. -/
theorem new_windows {limits : Dict String (ℕ × ℚ)} {maxKeys : ℕ} {lim : Limiter}
    (hnew : Limiter.new limits maxKeys = .ok lim) {path : String} {limit : ℕ} {window : ℚ}
    (hpath : limits.get? path = some (limit, window)) :
    ∃ w, lim.windows.get? path = some w ∧ w.limit = limit ∧ w.window = window ∧
      w.events = .empty := by
  obtain ⟨windows, hfold, rfl⟩ := new_inversion hnew
  exact foldlM_windows limits.entries hfold limits.nodup_keys path limit window
    (Dict.get?_eq_some_iff.1 hpath)

private theorem foldlM_windows_none {path : String} (entries : List (String × ℕ × ℚ)) :
    ∀ {start windows : Dict String SlidingWindowRateLimiter},
      entries.foldlM (fun windows entry => do
        let w ← SlidingWindowRateLimiter.new entry.2.1 entry.2.2
        pure (windows.set entry.1 w)) start = .ok windows →
      path ∉ entries.map Prod.fst → windows.get? path = start.get? path := by
  induction entries with
  | nil =>
      intro start windows hfold _
      cases hfold
      rfl
  | cons entry rest ih =>
      intro start windows hfold hout
      rw [List.map_cons, List.mem_cons, not_or] at hout
      rw [List.foldlM_cons] at hfold
      cases hentry : SlidingWindowRateLimiter.new entry.2.1 entry.2.2 with
      | error e =>
          rw [hentry] at hfold
          cases hfold
      | ok w =>
          rw [hentry] at hfold
          exact (ih hfold hout.2).trans (Dict.get?_set_of_ne _ _ hout.1)

/-- A path without a limit has no window. -/
theorem new_windows_none {limits : Dict String (ℕ × ℚ)} {maxKeys : ℕ} {lim : Limiter}
    (hnew : Limiter.new limits maxKeys = .ok lim) {path : String}
    (hpath : limits.get? path = none) : lim.windows.get? path = none := by
  obtain ⟨windows, hfold, rfl⟩ := new_inversion hnew
  have hout : path ∉ limits.entries.map Prod.fst := Dict.get?_eq_none_iff.1 hpath
  rw [foldlM_windows_none limits.entries hfold hout]
  exact Dict.get?_empty path

theorem new_maxKeys {limits : Dict String (ℕ × ℚ)} {maxKeys : ℕ} {lim : Limiter}
    (hnew : Limiter.new limits maxKeys = .ok lim) : lim.maxKeys = maxKeys := by
  obtain ⟨windows, -, rfl⟩ := new_inversion hnew
  rfl

/-- Every default limit is one the constructor accepts. -/
theorem new_defaultLimits (maxKeys : ℕ) : ∃ lim, Limiter.new defaultLimits maxKeys = .ok lim :=
  ⟨_, rfl⟩

/-! ## One request -/

theorem keyOf_injective (path : String) : Function.Injective (keyOf path) :=
  fun _ _ heq => (String.append_right_inj _).1 heq

section Check

variable {lim : Limiter} {path client : String} {now : ℚ} {w : SlidingWindowRateLimiter}

theorem check_fst (hpath : lim.windows.get? path = some w) :
    (lim.check path client now).1 =
      (checkWindow lim.maxKeys (lim.lastShrink.get? path) w (keyOf path client) now).1 := by
  simp [check, hpath]

theorem check_windows_self (hpath : lim.windows.get? path = some w) :
    (lim.check path client now).2.windows.get? path =
      some (checkWindow lim.maxKeys (lim.lastShrink.get? path) w (keyOf path client) now).2.2 := by
  simp [check, hpath]

/-- A path without a limit admits everything and leaves the limiter alone. -/
theorem check_of_windows_none (hpath : lim.windows.get? path = none) (client : String) (now : ℚ) :
    lim.check path client now = (.ok none, lim) := by
  simp [check, hpath]

theorem check_windows_other {other : String} (hne : other ≠ path) :
    (lim.check path client now).2.windows.get? other = lim.windows.get? other := by
  cases hpath : lim.windows.get? path with
  | none => simp [check, hpath]
  | some w => simp [check, hpath, Dict.get?_set_of_ne _ _ hne]

theorem check_maxKeys : (lim.check path client now).2.maxKeys = lim.maxKeys := by
  cases hpath : lim.windows.get? path with
  | none => simp [check, hpath]
  | some w => simp [check, hpath]

end Check

/-- What a run keeps true of the window of one limited path. -/
structure Serves (path : String) (limit : ℕ) (window : ℚ) (maxKeys : ℕ) (now : ℚ)
    (lim : Limiter) (w : SlidingWindowRateLimiter) : Prop where
  found : lim.windows.get? path = some w
  limit_eq : w.limit = limit
  window_eq : w.window = window
  maxKeys_eq : lim.maxKeys = maxKeys
  valid : w.Valid now
  size_le : w.events.size ≤ 2 * maxKeys

section Run

variable {limits : Dict String (ℕ × ℚ)} {maxKeys : ℕ} {lim : Limiter}
variable {path : String} {limit : ℕ} {window : ℚ}

theorem Serves.mono {now later : ℚ} {w : SlidingWindowRateLimiter}
    (h : Serves path limit window maxKeys now lim w) (hle : now ≤ later) :
    Serves path limit window maxKeys later lim w :=
  { h with valid := h.valid.mono hle }

/-- The window of `path` after a request. -/
def windowAfter (path : String) (lim : Limiter) (w : SlidingWindowRateLimiter)
    (request : Request) : SlidingWindowRateLimiter :=
  if request.path = path then
    (checkWindow lim.maxKeys (lim.lastShrink.get? path) w (keyOf path request.client)
      request.now).2.2
  else w

theorem Serves.step {w : SlidingWindowRateLimiter} {request : Request}
    (h : Serves path limit window maxKeys request.now lim w) :
    Serves path limit window maxKeys request.now (machine.step lim request).2
      (windowAfter path lim w request) := by
  by_cases hpath : request.path = path
  · subst hpath
    rw [windowAfter, if_pos rfl]
    refine ⟨check_windows_self h.found, ?_, ?_, check_maxKeys.trans h.maxKeys_eq,
      checkWindow_valid h.valid, ?_⟩
    · rw [checkWindow_limit, h.limit_eq]
    · rw [checkWindow_window, h.window_eq]
    · have hsize := h.size_le
      rw [← h.maxKeys_eq] at hsize ⊢
      exact checkWindow_size_le hsize
  · rw [windowAfter, if_neg hpath]
    exact { h with
      found := (check_windows_other (Ne.symm hpath)).trans h.found
      maxKeys_eq := check_maxKeys.trans h.maxKeys_eq }

theorem Chronological.left {first second : List Request}
    (h : Chronological (first ++ second)) : Chronological first :=
  (List.pairwise_append.1 h).1

theorem Chronological.le_last {past : List Request} {request : Request}
    (h : Chronological (past ++ [request])) : ∀ r ∈ past, r.now ≤ request.now :=
  fun r hr => (List.pairwise_append.1 h).2.2 r hr request (by simp)

/-- A run has an end. -/
theorem Chronological.exists_now {requests : List Request} (h : Chronological requests) :
    ∃ now, ∀ r ∈ requests, r.now ≤ now := by
  rcases List.eq_nil_or_concat' requests with rfl | ⟨past, request, rfl⟩
  · exact ⟨0, by simp⟩
  · refine ⟨request.now, fun r hr => ?_⟩
    rcases List.mem_append.1 hr with hr | hr
    · exact h.le_last r hr
    · rw [List.mem_singleton.1 hr]

/-- After any run, every limited path is served as configured. -/
theorem run_serves (hnew : Limiter.new limits maxKeys = .ok lim)
    (hpath : limits.get? path = some (limit, window)) (requests : List Request)
    (hchron : Chronological requests) {now : ℚ} (hnow : ∀ r ∈ requests, r.now ≤ now) :
    ∃ w, Serves path limit window maxKeys now (machine.run lim requests) w := by
  induction requests using List.reverseRecOn generalizing now with
  | nil =>
      obtain ⟨w, hfound, hlimit, hwindow, hempty⟩ := new_windows hnew hpath
      refine ⟨w, hfound, hlimit, hwindow, new_maxKeys hnew, ?_, ?_⟩
      · intro key ev hget
        simp [hempty] at hget
      · simp [hempty]
  | append_singleton past request ih =>
      obtain ⟨w, hserves⟩ := ih hchron.left hchron.le_last
      rw [Machine.run_concat]
      exact ⟨_, hserves.step.mono (hnow request (by simp))⟩

/-- A path without a limit never gets a window. -/
theorem run_windows_none (hnew : Limiter.new limits maxKeys = .ok lim)
    (hpath : limits.get? path = none) (requests : List Request) :
    (machine.run lim requests).windows.get? path = none := by
  induction requests using List.reverseRecOn with
  | nil => exact new_windows_none hnew hpath
  | append_singleton past request ih =>
      rw [Machine.run_concat]
      by_cases hrequest : request.path = path
      · subst hrequest
        have hsame :
            machine.step (machine.run lim past) request = (.ok none, machine.run lim past) :=
          check_of_windows_none ih request.client request.now
        rwa [hsame]
      · exact (check_windows_other (Ne.symm hrequest)).trans ih

/-! ## One client's ledger -/

/-- The times of one client's requests on one path. -/
def askedBy (path client : String) (requests : List Request) : List ℚ :=
  (requests.filter fun r => decide (r.path = path ∧ r.client = client)).map Request.now

/-- The times of one client's admitted requests on one path, along a run. -/
def admittedTimes (lim : Limiter) (path client : String) (requests : List Request) : List ℚ :=
  machine.observe
    (fun r answer => if r.path = path ∧ r.client = client ∧ answer = .ok none then some r.now
      else none)
    lim requests

/-- The cleanup of this request, if it runs one on `path`, does not evict the
client while its queue is live. -/
def SparesClient (path client : String) (lim : Limiter) (request : Request) : Prop :=
  request.path = path → ∀ w ∈ lim.windows.get? path,
    ∀ table ∈ cleanupTable lim.maxKeys (lim.lastShrink.get? path) w (keyOf path request.client)
      request.now, ¬ Evicts lim.maxKeys table request.now (keyOf path client)

instance (path client : String) (lim : Limiter) (request : Request) :
    Decidable (SparesClient path client lim request) :=
  inferInstanceAs (Decidable (_ → _))

/-- The request is refused because its path's table is at its ceiling. -/
def CeilingAt (lim : Limiter) (request : Request) : Prop :=
  ∃ w ∈ lim.windows.get? request.path, AtCeiling lim.maxKeys (lim.lastShrink.get? request.path) w
    (keyOf request.path request.client) request.now

instance (lim : Limiter) (request : Request) : Decidable (CeilingAt lim request) :=
  inferInstanceAs (Decidable (∃ _, _ ∧ _))

/-- Recorded stamps and a queue agree on what is live at `now`. -/
def Ledger (window now : ℚ) (recorded queue : List ℚ) : Prop :=
  live window now recorded = live window now queue

theorem Ledger.later {now later : ℚ} {recorded queue : List ℚ}
    (h : Ledger window now recorded queue) (hle : now ≤ later) :
    Ledger window later recorded queue :=
  live_congr_later hle h

/-- A request of another client, or on another path, keeps the ledger. -/
theorem Ledger.step_other {w : SlidingWindowRateLimiter} {request : Request} {client : String}
    {recorded : List ℚ} (hserves : Serves path limit window maxKeys request.now lim w)
    (hspares : SparesClient path client lim request)
    (hother : ¬ (request.path = path ∧ request.client = client))
    (hledger : Ledger window request.now recorded (w.queue (keyOf path client))) :
    Ledger window request.now recorded
      ((windowAfter path lim w request).queue (keyOf path client)) := by
  by_cases hpath : request.path = path
  · have hne : keyOf path client ≠ keyOf path request.client := fun heq =>
      hother ⟨hpath, (keyOf_injective path heq).symm⟩
    rw [windowAfter, if_pos hpath]
    cases hget : w.events.get? (keyOf path client) with
    | none =>
        have hmem := Dict.get?_eq_none_iff.1 hget
        rw [queue_of_not_mem (checkWindow_other_none hne hmem)]
        rwa [queue_of_not_mem hmem] at hledger
    | some ev =>
        rw [queue_of_get?_eq_some hget] at hledger
        rcases checkWindow_other hne hget with hkept | ⟨hgone, hidle | ⟨table, htable, hevicts⟩⟩
        · rwa [queue_of_get?_eq_some hkept]
        · -- An idle queue has no live stamp, so forgetting it loses nothing.
          have hexpired := (idle_iff (hserves.valid _ _ hget).sorted).1 hidle
          rw [hserves.window_eq] at hexpired
          rw [queue_of_not_mem (Dict.get?_eq_none_iff.1 hgone)]
          rwa [Ledger, live_eq_nil hexpired] at hledger
        · exact absurd hevicts (hspares hpath w hserves.found table htable)
  · rwa [windowAfter, if_neg hpath]

/-- An admitted request is entered on both sides of the ledger. -/
theorem Ledger.step_room {w : SlidingWindowRateLimiter} {request : Request}
    {recorded : List ℚ} (hserves : Serves path limit window maxKeys request.now lim w)
    (hpath : request.path = path) (hwindow : 0 < window)
    (hspares : SparesClient path request.client lim request)
    (hceiling : ¬ AtCeiling lim.maxKeys (lim.lastShrink.get? path) w
      (keyOf path request.client) request.now)
    (hledger : Ledger window request.now recorded (w.queue (keyOf path request.client)))
    (hroom : (live window request.now recorded).length < limit) :
    (machine.step lim request).1 = .ok none ∧
      Ledger window request.now (recorded ++ [request.now])
        ((windowAfter path lim w request).queue (keyOf path request.client)) := by
  subst hpath
  rw [hledger, ← hserves.window_eq, ← hserves.limit_eq] at hroom
  rw [← hserves.window_eq] at hwindow
  obtain ⟨hanswer, hqueue⟩ := checkWindow_of_room hserves.valid hwindow hceiling hroom
  refine ⟨(check_fst hserves.found).trans hanswer, ?_⟩
  rw [windowAfter, if_pos rfl]
  rcases hqueue with hkept | ⟨-, table, htable, hevicts⟩
  · rw [queue_of_get?_eq_some hkept, Ledger, live_append, live_append, hserves.window_eq,
      live_live le_rfl, hledger]
  · exact absurd hevicts (hspares rfl w hserves.found table htable)

/-- A request with a full window is told to wait for its oldest live stamp, and
its queue keeps every live stamp. -/
theorem Ledger.step_full {w : SlidingWindowRateLimiter} {request : Request}
    {recorded : List ℚ} (hserves : Serves path limit window maxKeys request.now lim w)
    (hpath : request.path = path)
    (hceiling : ¬ AtCeiling lim.maxKeys (lim.lastShrink.get? path) w
      (keyOf path request.client) request.now)
    (hledger : Ledger window request.now recorded (w.queue (keyOf path request.client)))
    (hfull : limit ≤ (live window request.now recorded).length) :
    ∃ oldest rest, live window request.now recorded = oldest :: rest ∧
      (machine.step lim request).1 = .ok (some (oldest + window - request.now)) ∧
      Ledger window request.now recorded
        ((windowAfter path lim w request).queue (keyOf path request.client)) := by
  subst hpath
  rw [hledger, ← hserves.window_eq, ← hserves.limit_eq] at hfull
  obtain ⟨oldest, rest, hlive, hanswer, hkept⟩ :=
    checkWindow_of_full hserves.valid hceiling hfull
  rw [hserves.window_eq, ← hledger] at hlive
  refine ⟨oldest, rest, hlive, ?_, ?_⟩
  · rw [← hserves.window_eq]
    exact (check_fst hserves.found).trans hanswer
  · rw [windowAfter, if_pos rfl, queue_of_get?_eq_some hkept, ← hlive, Ledger, live_live le_rfl]

/-- At the ceiling the client is untracked before and after. -/
theorem Ledger.step_ceiling {w : SlidingWindowRateLimiter} {request : Request}
    {recorded : List ℚ} (hserves : Serves path limit window maxKeys request.now lim w)
    (hpath : request.path = path)
    (hceiling : AtCeiling lim.maxKeys (lim.lastShrink.get? path) w
      (keyOf path request.client) request.now)
    (hledger : Ledger window request.now recorded (w.queue (keyOf path request.client))) :
    (machine.step lim request).1 = .ok (some window) ∧
      Ledger window request.now recorded
        ((windowAfter path lim w request).queue (keyOf path request.client)) := by
  subst hpath
  obtain ⟨hanswer, hgone⟩ := checkWindow_of_atCeiling hceiling
  refine ⟨?_, ?_⟩
  · rw [← hserves.window_eq]
    exact (check_fst hserves.found).trans hanswer
  · rw [windowAfter, if_pos rfl, queue_of_not_mem hgone]
    rwa [queue_of_not_mem hceiling.1] at hledger

end Run

/-! ## A small limiter -/

/-- Two requests a minute on `/ask`. -/
def twoAMinute : Dict String (ℕ × ℚ) := Dict.empty.set "/ask" (2, 60)

theorem get?_twoAMinute : twoAMinute.get? "/ask" = some (2, 60) := by decide +kernel

/-- The limiter of that table, before any request. -/
def twoAMinuteLimiter (maxKeys : ℕ) : Limiter :=
  ⟨Dict.empty.set "/ask" ⟨2, 60, .empty, by decide⟩, maxKeys, .empty⟩

theorem new_twoAMinute (maxKeys : ℕ) :
    Limiter.new twoAMinute maxKeys = .ok (twoAMinuteLimiter maxKeys) := rfl

end DealFinder.Limits
