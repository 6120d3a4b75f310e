/-
# A limited client stays limited

A refusal for a full window names the time until the oldest live request
expires. Up to that moment every live stamp of the client stays live, so its
queue is neither idle nor below the limit: no cleanup forgets it, whatever the
other clients do. From that moment on the client either is still tracked, with
one expired stamp to drop, or was forgotten as idle. Both leave it room, so its
next request is admitted unless an untracked client cannot enter the table.
-/

import DealFinder.Limits.Runs

namespace DealFinder.Limits

open DealFinder.Math SlidingWindowRateLimiter Limiter

variable {limits : Dict String (ℕ × ℚ)} {maxKeys : ℕ} {lim : Limiter}
variable {path client : String} {limit : ℕ} {window : ℚ}

/-- A cleanup during a check scans the queues of the other clients as they were. -/
theorem cleanupTable_other {lastShrink : Option ℚ} {w table : SlidingWindowRateLimiter}
    {key other : String} {now : ℚ} (hne : other ≠ key)
    (htable : cleanupTable maxKeys lastShrink w key now = some table) :
    table.events.get? other = w.events.get? other ∧ table.limit = w.limit := by
  unfold cleanupTable at htable
  split_ifs at htable with hdue hfull hgrown
  · cases htable
    exact ⟨rfl, rfl⟩
  · cases htable
    exact ⟨allow_get?_of_ne w now hne, allow_limit w key now⟩

/-- The queue of a client that was refused with `oldest` as its oldest stamp: it
is still there, or `oldest` has expired and the client was forgotten. -/
def Held (key : String) (oldest : ℚ) (rest : List ℚ) (now : ℚ)
    (w : SlidingWindowRateLimiter) : Prop :=
  w.events.get? key = some (oldest :: rest) ∨ oldest + w.window ≤ now ∧ key ∉ w.events

variable {oldest : ℚ} {rest : List ℚ}

theorem Held.mono {key : String} {now later : ℚ} {w : SlidingWindowRateLimiter}
    (h : Held key oldest rest now w) (hle : now ≤ later) : Held key oldest rest later w := by
  cases h with
  | inl hget => exact Or.inl hget
  | inr hgone => exact Or.inr ⟨hgone.1.trans hle, hgone.2⟩

/-- No stamp of a queue has expired while its oldest has not. -/
theorem live_of_oldest {stamps : List ℚ} {now : ℚ} (hsorted : (oldest :: stamps).Pairwise (· ≤ ·))
    (hearly : now < oldest + window) : live window now (oldest :: stamps) = oldest :: stamps := by
  have holdest : now - window < oldest := sub_lt_iff_lt_add.2 hearly
  rw [live, List.filter_eq_self]
  intro t ht
  rcases List.mem_cons.1 ht with rfl | ht
  · simpa using holdest
  · simpa using holdest.trans_le ((List.pairwise_cons.1 hsorted).1 t ht)

/-- Once its oldest stamp has expired, a full queue has room. -/
theorem live_length_lt {stamps : List ℚ} {now : ℚ} (hlate : oldest + window ≤ now) :
    (live window now (oldest :: stamps)).length < (oldest :: stamps).length := by
  have hexpired : ¬ now - window < oldest := not_lt.2 (le_sub_iff_add_le.2 hlate)
  rw [live, List.filter_cons_of_neg (by simpa using hexpired), List.length_cons]
  exact Nat.lt_succ_of_le (List.length_filter_le _ _)

/-- Requests of others do not disturb a client that is held back. -/
theorem Held.step_other {w : SlidingWindowRateLimiter} {request : Request}
    (hserves : Serves path limit window maxKeys request.now lim w)
    (hother : ¬ (request.path = path ∧ request.client = client))
    (hfull : limit ≤ (oldest :: rest).length)
    (h : Held (keyOf path client) oldest rest request.now w) :
    Held (keyOf path client) oldest rest request.now (windowAfter path lim w request) := by
  by_cases hpath : request.path = path
  · have hne : keyOf path client ≠ keyOf path request.client := fun heq =>
      hother ⟨hpath, (keyOf_injective path heq).symm⟩
    rw [windowAfter, if_pos hpath]
    cases h with
    | inr hgone =>
        apply Or.inr
        rw [checkWindow_window]
        exact ⟨hgone.1, checkWindow_other_none hne hgone.2⟩
    | inl hget =>
        rcases checkWindow_other hne hget with hkept | ⟨hgone, hidle | ⟨table, htable, hevicts⟩⟩
        · exact Or.inl hkept
        · -- An idle queue has only expired stamps, `oldest` among them.
          apply Or.inr
          rw [checkWindow_window, ← Dict.get?_eq_none_iff]
          refine ⟨?_, hgone⟩
          have hexpired := (idle_iff (hserves.valid _ _ hget).sorted).1 hidle oldest (by simp)
          exact le_sub_iff_add_le.1 hexpired
        · -- A full queue is not below the limit, so it is not evicted.
          obtain ⟨hsame, hlimit⟩ := cleanupTable_other hne htable
          obtain ⟨ev, last, hev, -, -, hbelow, -⟩ := hevicts
          rw [hsame, hget, Option.some.injEq] at hev
          rw [← hev, hlimit, hserves.limit_eq] at hbelow
          exact absurd hbelow (not_lt.2 hfull)
  · rwa [windowAfter, if_neg hpath]

/-- The client's own request, made too early, is refused and changes nothing. -/
theorem Held.step_early {w : SlidingWindowRateLimiter} {request : Request}
    (hserves : Serves path limit window maxKeys request.now lim w)
    (hpath : request.path = path)
    (hfull : limit ≤ (oldest :: rest).length) (hearly : request.now < oldest + window)
    (h : Held (keyOf path request.client) oldest rest request.now w) :
    (machine.step lim request).1 = .ok (some (oldest + window - request.now)) ∧
      Held (keyOf path request.client) oldest rest request.now
        (windowAfter path lim w request) := by
  subst hpath
  cases h with
  | inr hgone =>
      rw [hserves.window_eq] at hgone
      exact absurd hgone.1 (not_le.2 hearly)
  | inl hget =>
      have hlive : live w.window request.now (w.queue (keyOf request.path request.client)) =
          oldest :: rest := by
        rw [queue_of_get?_eq_some hget, hserves.window_eq]
        exact live_of_oldest (hserves.valid _ _ hget).sorted hearly
      have htracked : ¬ AtCeiling lim.maxKeys (lim.lastShrink.get? request.path) w
          (keyOf request.path request.client) request.now := fun hceiling =>
        hceiling.1 (Dict.mem_of_get?_eq_some hget)
      obtain ⟨first, others, heq, hanswer, hkept⟩ :=
        checkWindow_of_full hserves.valid htracked (by rwa [hlive, hserves.limit_eq])
      rw [hlive, List.cons.injEq] at heq
      obtain ⟨rfl, rfl⟩ := heq
      refine ⟨?_, Or.inl ?_⟩
      · rw [← hserves.window_eq]
        exact (check_fst hserves.found).trans hanswer
      · rw [windowAfter, if_pos rfl]
        exact hkept

/-- The client's own request, made in time, is admitted unless the client is no
longer tracked and the table has no room left. -/
theorem Held.step_late {w : SlidingWindowRateLimiter} {request : Request}
    (hserves : Serves path limit window maxKeys request.now lim w)
    (hpath : request.path = path) (hwindow : 0 < window)
    (hfull : (oldest :: rest).length ≤ limit) (hlate : oldest + window ≤ request.now)
    (h : Held (keyOf path request.client) oldest rest request.now w) :
    (machine.step lim request).1 = .ok none ∨
      keyOf path request.client ∉ w.events ∧ w.events.size = 2 * maxKeys := by
  subst hpath
  by_cases hceiling : AtCeiling lim.maxKeys (lim.lastShrink.get? request.path) w
      (keyOf request.path request.client) request.now
  · apply Or.inr
    refine ⟨hceiling.1, le_antisymm hserves.size_le ?_⟩
    rw [← hserves.maxKeys_eq]
    exact hceiling.2.trans maybeShrink_size_le
  · apply Or.inl
    have hroom : (live w.window request.now
        (w.queue (keyOf request.path request.client))).length < w.limit := by
      cases h with
      | inl hget =>
          rw [queue_of_get?_eq_some hget, hserves.limit_eq, hserves.window_eq]
          exact (live_length_lt hlate).trans_le hfull
      | inr hgone =>
          rw [queue_of_not_mem hgone.2]
          exact w.limit_pos
    rw [← hserves.window_eq] at hwindow
    exact (check_fst hserves.found).trans
      (checkWindow_of_room hserves.valid hwindow hceiling hroom).1

/-- From a refusal on, and as long as the client asks only too early, it is held back. -/
theorem run_held (hnew : Limiter.new limits maxKeys = .ok lim)
    (hpath : limits.get? path = some (limit, window)) {past : List Request} {request : Request}
    (hfull : (oldest :: rest).length = limit) (w : SlidingWindowRateLimiter)
    (hfound : (machine.run lim (past ++ [request])).windows.get? path = some w)
    (hheld : Held (keyOf path client) oldest rest request.now w) (later : List Request)
    (hchron : Chronological (past ++ [request] ++ later))
    (hearly : ∀ r ∈ later, r.path = path → r.client = client → r.now < oldest + window)
    {now : ℚ} (hnow : ∀ r ∈ past ++ [request] ++ later, r.now ≤ now) :
    ∃ w, Serves path limit window maxKeys now
        (machine.run lim (past ++ [request] ++ later)) w ∧
      Held (keyOf path client) oldest rest now w := by
  induction later using List.reverseRecOn generalizing now with
  | nil =>
      rw [List.append_nil] at hchron hnow ⊢
      obtain ⟨w', hserves⟩ := run_serves hnew hpath _ hchron hnow
      obtain rfl : w = w' := Option.some.inj (hfound.symm.trans hserves.found)
      exact ⟨w, hserves, hheld.mono (hnow request (by simp))⟩
  | append_singleton later next ih =>
      rw [← List.append_assoc] at hchron hnow ⊢
      obtain ⟨w', hserves, hheld'⟩ :=
        ih hchron.left (fun r hr => hearly r (List.mem_append_left _ hr)) hchron.le_last
      rw [Machine.run_concat]
      refine ⟨_, hserves.step.mono (hnow next (by simp)), Held.mono ?_ (hnow next (by simp))⟩
      by_cases hmine : next.path = path ∧ next.client = client
      · obtain ⟨hnext, rfl⟩ := hmine
        exact (hheld'.step_early hserves hnext hfull.ge (hearly next (by simp) hnext rfl)).2
      · exact hheld'.step_other hserves hmine hfull.ge

/-- After `past`, and as long as the clock reads only `readings`, the requests of `client` on
`path` made before `release` are refused, and the first one made from then on is admitted unless
the client is no longer tracked and the path's table holds `2 * max_keys` clients. -/
def LimitedUntil (M : Machine Limiter Request Answer) (readings : Set ℚ) (lim : Limiter)
    (path client : String) (past : List Request) (release : ℚ) : Prop :=
  ∀ (later : List Request) (next : Request), Chronological (past ++ later ++ [next]) →
    (∀ r ∈ later ++ [next], r.now ∈ readings) → next.path = path → next.client = client →
    (next.now < release →
      ∃ wait, M.answerAfter lim (past ++ later) next = .ok (some wait)) ∧
    (release ≤ next.now → (∀ r ∈ later, r.path = path → r.client = client → r.now < release) →
      M.answerAfter lim (past ++ later) next = .ok none ∨
        ∃ w, (M.run lim (past ++ later)).windows.get? path = some w ∧
          keyOf path client ∉ w.events ∧ w.events.size = 2 * lim.maxKeys)

/-- A client whose entry is full is limited until its oldest stamp expires. -/
theorem limitedUntil_of_full (hnew : Limiter.new limits maxKeys = .ok lim)
    (hpath : limits.get? path = some (limit, window)) (hwindow : 0 < window)
    {past : List Request} {request : Request} {w : SlidingWindowRateLimiter}
    (hfound : (machine.run lim (past ++ [request])).windows.get? path = some w)
    (hentry : w.events.get? (keyOf path client) = some (oldest :: rest))
    (hfull : (oldest :: rest).length = limit) :
    LimitedUntil machine Set.univ lim path client (past ++ [request]) (oldest + window) := by
  intro later next hchron _ hnext hclient
  subst hclient
  have hheld := fun hearly =>
    run_held hnew hpath hfull w hfound (Or.inl hentry) later hchron.left hearly hchron.le_last
  refine ⟨fun hnow => ?_, fun hnow hearly => ?_⟩
  · -- The clock does not go back, so nobody asked too late before `next`.
    obtain ⟨w', hserves, hheld'⟩ := hheld fun r hr _ _ =>
      (hchron.le_last r (List.mem_append_right _ hr)).trans_lt hnow
    exact ⟨_, (hheld'.step_early hserves hnext hfull.ge hnow).1⟩
  · obtain ⟨w', hserves, hheld'⟩ := hheld hearly
    cases hheld'.step_late hserves hnext hwindow hfull.le hnow with
    | inl hadmitted => exact Or.inl hadmitted
    | inr hout =>
        exact Or.inr ⟨w', hserves.found, hout.1, by rw [hout.2, new_maxKeys hnew]⟩

/-- On exact times, a request that is not admitted, and not because its path's table is at the
ceiling, leaves its client an entry whose oldest stamp names the wait; the wait is positive and at
most a window; and the client is limited until it is over, and no longer. -/
theorem refused_until_retryAfter (hnew : Limiter.new limits maxKeys = .ok lim)
    (hpath : limits.get? path = some (limit, window)) (hwindow : 0 < window)
    (past : List Request) (request : Request) (hchron : Chronological (past ++ [request]))
    (hrequest : request.path = path)
    (hrefused : machine.answerAfter lim past request ≠ .ok none)
    (hceiling : ¬ CeilingAt (machine.run lim past) request) :
    ∃ w oldest rest wait,
      (machine.run lim (past ++ [request])).windows.get? path = some w ∧
      w.events.get? (keyOf path request.client) = some (oldest :: rest) ∧
      wait = oldest + window - request.now ∧
      machine.answerAfter lim past request = .ok (some wait) ∧
      0 < wait ∧ wait ≤ window ∧
      LimitedUntil machine Set.univ lim path request.client (past ++ [request])
        (request.now + wait) := by
  subst hrequest
  obtain ⟨before, hserves⟩ := run_serves hnew hpath past hchron.left hchron.le_last
  have hbelow : ¬ AtCeiling (machine.run lim past).maxKeys
      ((machine.run lim past).lastShrink.get? request.path) before
      (keyOf request.path request.client) request.now := fun hat =>
    hceiling ⟨before, hserves.found, hat⟩
  have hwindow' : 0 < before.window := by rwa [hserves.window_eq]
  have hfull : before.limit ≤ (live before.window request.now
      (before.queue (keyOf request.path request.client))).length := by
    by_contra hroom
    exact hrefused ((check_fst hserves.found).trans
      (checkWindow_of_room hserves.valid hwindow' hbelow (not_le.1 hroom)).1)
  obtain ⟨oldest, rest, hlive, hanswer, hkept⟩ :=
    checkWindow_of_full hserves.valid hbelow hfull
  -- The queue is full, and `oldest` is a live stamp of the past.
  have hfound : (machine.run lim (past ++ [request])).windows.get? request.path =
      some (windowAfter request.path (machine.run lim past) before request) := by
    rw [Machine.run_concat]
    exact hserves.step.found
  have hentry : (windowAfter request.path (machine.run lim past) before request).events.get?
      (keyOf request.path request.client) = some (oldest :: rest) := by
    rw [windowAfter, if_pos rfl]
    exact hkept
  have hlength : (oldest :: rest).length = limit := by
    have hle := (hserves.step.valid _ _ hentry).length_le
    rw [hserves.step.limit_eq] at hle
    rw [hlive, hserves.limit_eq] at hfull
    exact le_antisymm hle hfull
  have hmem : oldest ∈ live before.window request.now
      (before.queue (keyOf request.path request.client)) := by simp [hlive]
  have hpast : oldest ≤ request.now := hserves.valid.queue_past _ _ (mem_live.1 hmem).1
  have hyoung : request.now - window < oldest := by
    rw [← hserves.window_eq]
    exact (mem_live.1 hmem).2
  have hrelease : request.now + (oldest + window - request.now) = oldest + window :=
    add_sub_cancel request.now (oldest + window)
  refine ⟨_, oldest, rest, oldest + window - request.now, hfound, hentry, rfl, ?_, ?_, ?_, ?_⟩
  · rw [← hserves.window_eq]
    exact (check_fst hserves.found).trans hanswer
  · exact sub_pos.2 (sub_lt_iff_lt_add.1 hyoung)
  · rw [sub_le_iff_le_add, add_comm]
    exact add_le_add_right hpast window
  · rw [hrelease]
    exact limitedUntil_of_full hnew hpath hwindow hfound hentry hlength

end DealFinder.Limits
