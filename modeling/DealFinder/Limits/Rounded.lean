/-
# The limiter on a clock of doubles

The readings of the clock are doubles, and the limiter rounds what it computes from them: the
cutoff of a window, the seconds since a cleanup and the seconds to wait. `round` stands for the
rounding. Where it changes none of these figures (`Exact`), the limiter does what it does on exact
times (`run_eq`), and Retry-After is exact (`retryAfter_exact`). Readings that are multiples of
`2^-20` seconds are such readings of doubles (`exact_ticks`). Readings of a nanosecond are not: a
client is told to wait until a moment at which it is still refused (`retryAfter_rounded`).
-/

import DealFinder.Feeds.Nearest
import DealFinder.Limits.Memory
import DealFinder.Limits.RetryAfter

namespace DealFinder.Limits.Rounded

open DealFinder.Feeds DealFinder.Math SlidingWindowRateLimiter Limiter

/-! ## The operations, with their roundings -/

section Operations

variable (round : ℚ → ℚ)

/-- `SlidingWindowRateLimiter.allow`. -/
def allow (w : SlidingWindowRateLimiter) (user_id : String) (now : ℚ) :
    Bool × SlidingWindowRateLimiter :=
  let cutoff := round (now - w.window)
  let events := (w.events.getD user_id []).dropWhile fun t => decide (t ≤ cutoff)
  if w.limit ≤ events.length then
    (false, { w with events := w.events.set user_id events })
  else
    (true, { w with events := w.events.set user_id (events ++ [now]) })

/-- `not ev or ev[-1] <= now - window.window`. -/
def idle (w : SlidingWindowRateLimiter) (now : ℚ) (ev : List ℚ) : Bool :=
  match ev.getLast? with
  | none => true
  | some last => decide (last ≤ round (now - w.window))

/-- `Limiter._shrink`. -/
def shrink (maxKeys : ℕ) (w : SlidingWindowRateLimiter) (now : ℚ) : SlidingWindowRateLimiter :=
  let events := w.events.filter fun _ ev => !idle round w now ev
  let excess : ℤ := events.size - cleanupTarget maxKeys
  if excess ≤ 0 then { w with events := events }
  else
    let open_keys := (w.openKeys events).insertionSort (· ≤ ·)
    { w with events := events.eraseAll ((open_keys.take excess.toNat).map fun e => (ofLex e).2) }

/-- A cleanup runs at most once per `SHRINK_EVERY_S`. -/
def shrinkDue (lastShrink : Option ℚ) (now : ℚ) : Bool :=
  match lastShrink with
  | none => true
  | some last => decide (shrinkEveryS ≤ round (now - last))

/-- `Limiter._maybe_shrink`. -/
def maybeShrink (maxKeys : ℕ) (lastShrink : Option ℚ) (w : SlidingWindowRateLimiter) (now : ℚ) :
    Option ℚ × SlidingWindowRateLimiter :=
  if shrinkDue round lastShrink now then (some now, shrink round maxKeys w now)
  else (lastShrink, w)

/-- The end of `Limiter.check`. The wait is `events[key][0] + window.window - now`. -/
def askWindow (maxKeys : ℕ) (lastShrink : Option ℚ) (w : SlidingWindowRateLimiter) (key : String)
    (now : ℚ) : Answer × Option ℚ × SlidingWindowRateLimiter :=
  let asked := allow round w key now
  let cleaned :=
    if maxKeys < asked.2.events.size then maybeShrink round maxKeys lastShrink asked.2 now
    else (lastShrink, asked.2)
  if asked.1 then (.ok none, cleaned)
  else
    match cleaned.2.events.getD key [] with
    | oldest :: _ => (.ok (some (round (round (oldest + w.window) - now))), cleaned)
    | [] => (.error .indexError, cleaned)

/-- `Limiter.check` once the path's window is found. -/
def checkWindow (maxKeys : ℕ) (lastShrink : Option ℚ) (w : SlidingWindowRateLimiter)
    (key : String) (now : ℚ) : Answer × Option ℚ × SlidingWindowRateLimiter :=
  if key ∉ w.events ∧ 2 * maxKeys ≤ w.events.size then
    let cleaned := maybeShrink round maxKeys lastShrink w now
    if 2 * maxKeys ≤ cleaned.2.events.size then (.ok (some w.window), cleaned)
    else askWindow round maxKeys cleaned.1 cleaned.2 key now
  else askWindow round maxKeys lastShrink w key now

/-- `Limiter.check`. -/
def check (lim : Limiter) (path client : String) (now : ℚ) : Answer × Limiter :=
  match lim.windows.get? path with
  | none => (.ok none, lim)
  | some w =>
      let checked :=
        checkWindow round lim.maxKeys (lim.lastShrink.get? path) w (keyOf path client) now
      (checked.1,
        { lim with
          windows := lim.windows.set path checked.2.2
          lastShrink :=
            match checked.2.1 with
            | none => lim.lastShrink
            | some last => lim.lastShrink.set path last })

/-- The limiter as a machine that answers requests. -/
def machine : Machine Limiter Request Answer where
  step lim request := check round lim request.path request.client request.now

/-- The request is refused because its path's table is at its ceiling. -/
def CeilingAt (lim : Limiter) (request : Request) : Prop :=
  ∃ w ∈ lim.windows.get? request.path, keyOf request.path request.client ∉ w.events ∧
    2 * lim.maxKeys ≤ (maybeShrink round lim.maxKeys (lim.lastShrink.get? request.path) w
      request.now).2.events.size

instance (lim : Limiter) (request : Request) : Decidable (CeilingAt round lim request) :=
  inferInstanceAs (Decidable (∃ _, _ ∧ _))

end Operations

/-! ## Readings that need no rounding -/

/-- What is computed of these readings for a window of this length comes out exact. -/
structure Unrounded (round : ℚ → ℚ) (readings : Set ℚ) (window : ℚ) : Prop where
  elapsed : ∀ s ∈ readings, ∀ t ∈ readings, round (t - s) = t - s
  cutoff : ∀ t ∈ readings, round (t - window) = t - window
  wait : ∀ s ∈ readings, ∀ t ∈ readings, round (round (s + window) - t) = s + window - t

/-- Nothing that the limiter computes of these readings needs rounding. -/
def Exact (round : ℚ → ℚ) (readings : Set ℚ) (limits : Dict String (ℕ × ℚ)) : Prop :=
  ∀ limited ∈ limits.values, Unrounded round readings limited.2

/-- Every stamp of the table is one of these readings. -/
def Stamped (readings : Set ℚ) (w : SlidingWindowRateLimiter) : Prop :=
  ∀ key ev, w.events.get? key = some ev → ∀ t ∈ ev, t ∈ readings

section Window

variable {round : ℚ → ℚ} {readings : Set ℚ} {w : SlidingWindowRateLimiter} {key : String}
variable {now : ℚ} {maxKeys : ℕ} {lastShrink : Option ℚ}

theorem Stamped.queue (h : Stamped readings w) (key : String) :
    ∀ t ∈ w.queue key, t ∈ readings := by
  cases hget : w.events.get? key with
  | none => simp [SlidingWindowRateLimiter.queue, Dict.getD, hget]
  | some ev =>
      rw [queue_of_get?_eq_some hget]
      exact h key ev hget

theorem Stamped.allow (h : Stamped readings w) (hnow : now ∈ readings) (key : String) :
    Stamped readings (w.allow key now).2 := by
  intro other ev hget t ht
  by_cases hother : other = key
  · subst hother
    have hqueue : t ∈ w.queue other ∨ t = now := by
      have hkept : ∀ {s}, s ∈ (w.events.getD other []).dropWhile
          (fun t => decide (t ≤ now - w.window)) → s ∈ w.queue other :=
        fun hs => (List.dropWhile_sublist _).subset hs
      simp only [SlidingWindowRateLimiter.allow] at hget
      split_ifs at hget with hfull
      · rw [Dict.get?_set_self, Option.some.injEq] at hget
        exact Or.inl (hkept (hget ▸ ht))
      · rw [Dict.get?_set_self, Option.some.injEq] at hget
        rw [← hget, List.mem_append, List.mem_singleton] at ht
        exact ht.imp_left hkept
    rcases hqueue with hqueue | rfl
    · exact h.queue other t hqueue
    · exact hnow
  · rw [allow_get?_of_ne w now hother] at hget
    exact h other ev hget t ht

theorem Stamped.maybeShrink (h : Stamped readings w) (maxKeys : ℕ) (lastShrink : Option ℚ)
    (now : ℚ) : Stamped readings (Limits.maybeShrink maxKeys lastShrink w now).2 := by
  intro key ev hget
  unfold Limits.maybeShrink at hget
  split_ifs at hget
  · exact h key ev (shrink_get?_eq_some_iff.1 hget).1
  · exact h key ev hget

theorem allow_eq (hexact : Unrounded round readings w.window) (hnow : now ∈ readings)
    (key : String) : allow round w key now = w.allow key now := by
  rw [allow, hexact.cutoff now hnow]
  rfl

theorem shrink_eq (hexact : Unrounded round readings w.window) (hnow : now ∈ readings)
    (maxKeys : ℕ) : shrink round maxKeys w now = w.shrink maxKeys now := by
  have hidle : idle round w now = w.idle now := by
    funext ev
    rw [idle, hexact.cutoff now hnow]
    rfl
  rw [shrink, hidle]
  rfl

theorem maybeShrink_eq (hexact : Unrounded round readings w.window) (hnow : now ∈ readings)
    (hlast : ∀ last ∈ lastShrink, last ∈ readings) :
    maybeShrink round maxKeys lastShrink w now = Limits.maybeShrink maxKeys lastShrink w now := by
  have hdue : shrinkDue round lastShrink now = Limits.shrinkDue lastShrink now := by
    cases lastShrink with
    | none => rfl
    | some last =>
        rw [shrinkDue, hexact.elapsed last (hlast last rfl) now hnow]
        rfl
  rw [maybeShrink, hdue, shrink_eq hexact hnow]
  rfl

theorem askWindow_eq (hexact : Unrounded round readings w.window) (hstamped : Stamped readings w)
    (hnow : now ∈ readings) (hlast : ∀ last ∈ lastShrink, last ∈ readings) (key : String) :
    askWindow round maxKeys lastShrink w key now =
        Limits.askWindow maxKeys lastShrink w key now ∧
      Stamped readings (Limits.askWindow maxKeys lastShrink w key now).2.2 := by
  have hasked := hstamped.allow hnow key
  have hwindow : Unrounded round readings (w.allow key now).2.window := by rwa [allow_window]
  simp only [askWindow, Limits.askWindow, allow_eq hexact hnow, maybeShrink_eq hwindow hnow hlast]
  generalize hcleaned : (if maxKeys < (w.allow key now).2.events.size then
    Limits.maybeShrink maxKeys lastShrink (w.allow key now).2 now
    else (lastShrink, (w.allow key now).2)) = cleaned
  have hkept : Stamped readings cleaned.2 := by
    rw [← hcleaned]
    split_ifs
    · exact hasked.maybeShrink maxKeys lastShrink now
    · exact hasked
  cases hqueue : cleaned.2.events.getD key [] with
  | nil => split_ifs <;> exact ⟨rfl, hkept⟩
  | cons oldest rest =>
      have holdest : oldest ∈ readings :=
        hkept.queue key oldest (by rw [SlidingWindowRateLimiter.queue, hqueue]; simp)
      refine ⟨?_, ?_⟩
      · simp only [hexact.wait oldest holdest now hnow]
      · split_ifs <;> exact hkept

/-- A check that rounds nothing is the check on exact times, and it records only the reading of
its clock. -/
theorem checkWindow_eq (hexact : Unrounded round readings w.window) (hstamped : Stamped readings w)
    (hnow : now ∈ readings) (maxKeys : ℕ) (hlast : ∀ last ∈ lastShrink, last ∈ readings)
    (key : String) : checkWindow round maxKeys lastShrink w key now =
        Limits.checkWindow maxKeys lastShrink w key now ∧
      Stamped readings (Limits.checkWindow maxKeys lastShrink w key now).2.2 := by
  have hcleaned := hstamped.maybeShrink maxKeys lastShrink now
  have hwindow :
      Unrounded round readings (Limits.maybeShrink maxKeys lastShrink w now).2.window := by
    rwa [maybeShrink_window]
  have hstamp : ∀ last ∈ (Limits.maybeShrink maxKeys lastShrink w now).1, last ∈ readings := by
    unfold Limits.maybeShrink
    split_ifs
    · rintro last ⟨⟩
      exact hnow
    · exact hlast
  simp only [checkWindow, Limits.checkWindow, maybeShrink_eq hexact hnow hlast]
  split_ifs
  · exact ⟨rfl, hcleaned⟩
  · exact askWindow_eq hwindow hcleaned hnow hstamp key
  · exact askWindow_eq hexact hstamped hnow hlast key

end Window

/-! ## Runs -/

/-- A limiter whose windows are the configured ones and whose stamps are readings. -/
structure Timed (limits : Dict String (ℕ × ℚ)) (readings : Set ℚ) (lim : Limiter) : Prop where
  configured : ∀ path w, lim.windows.get? path = some w →
    ∃ limit, limits.get? path = some (limit, w.window)
  stamped : ∀ path w, lim.windows.get? path = some w → Stamped readings w
  cleaned : ∀ path, ∀ last ∈ lim.lastShrink.get? path, last ∈ readings

section Run

variable {round : ℚ → ℚ} {readings : Set ℚ} {limits : Dict String (ℕ × ℚ)} {maxKeys : ℕ}
variable {lim : Limiter} {path client : String} {limit : ℕ} {window now : ℚ}

theorem Exact.unrounded (h : Exact round readings limits)
    (hpath : limits.get? path = some (limit, window)) : Unrounded round readings window :=
  h _ (Dict.mem_values_iff.2 ⟨path, hpath⟩)

theorem timed_new (hnew : Limiter.new limits maxKeys = .ok lim) : Timed limits readings lim := by
  have hfound : ∀ path w, lim.windows.get? path = some w →
      ∃ limit, limits.get? path = some (limit, w.window) ∧ w.events = .empty := by
    intro path w hget
    cases hpath : limits.get? path with
    | none =>
        rw [new_windows_none hnew hpath] at hget
        cases hget
    | some limited =>
        obtain ⟨w', hget', -, hwindow, hempty⟩ := new_windows hnew hpath
        obtain rfl : w' = w := Option.some.inj (hget'.symm.trans hget)
        exact ⟨limited.1, by rw [hwindow], hempty⟩
  refine ⟨fun path w hget => ?_, fun path w hget key ev hev => ?_, fun path last hlast => ?_⟩
  · obtain ⟨limit, hlimit, -⟩ := hfound path w hget
    exact ⟨limit, hlimit⟩
  · obtain ⟨-, -, hempty⟩ := hfound path w hget
    rw [hempty, Dict.get?_empty] at hev
    cases hev
  · obtain ⟨windows, -, rfl⟩ := new_inversion hnew
    cases hlast

/-- A request whose reading needs no rounding is answered as on exact times. -/
theorem Timed.step (h : Timed limits readings lim) {request : Request}
    (hexact : Exact round readings limits) (hnow : request.now ∈ readings) :
    (machine round).step lim request = Limits.machine.step lim request ∧
      Timed limits readings (Limits.machine.step lim request).2 := by
  cases hfound : lim.windows.get? request.path with
  | none =>
      have hsame : Limits.machine.step lim request = (.ok none, lim) :=
        check_of_windows_none hfound request.client request.now
      have hround : (machine round).step lim request = (.ok none, lim) := by
        simp [machine, check, hfound]
      rw [hsame, hround]
      exact ⟨rfl, h⟩
  | some w =>
      obtain ⟨limit, hlimit⟩ := h.configured _ w hfound
      obtain ⟨heq, hstamped⟩ := checkWindow_eq (hexact.unrounded hlimit) (h.stamped _ w hfound)
        hnow lim.maxKeys (h.cleaned request.path) (keyOf request.path request.client)
      have hself : (lim.check request.path request.client request.now).2.windows.get?
          request.path = some (Limits.checkWindow lim.maxKeys
            (lim.lastShrink.get? request.path) w (keyOf request.path request.client)
              request.now).2.2 := check_windows_self hfound
      refine ⟨?_, fun path v hv => ?_, fun path v hv => ?_, fun path last hlast => ?_⟩
      · simp only [machine, Limits.machine, check, Limiter.check, hfound]
        exact heq ▸ rfl
      · by_cases hpath : path = request.path
        · subst hpath
          obtain rfl := Option.some.inj (hself.symm.trans hv)
          exact ⟨limit, by rwa [checkWindow_window]⟩
        · exact h.configured path v ((check_windows_other hpath).symm.trans hv)
      · by_cases hpath : path = request.path
        · subst hpath
          obtain rfl := Option.some.inj (hself.symm.trans hv)
          exact hstamped
        · exact h.stamped path v ((check_windows_other hpath).symm.trans hv)
      · by_cases hpath : path = request.path
        · subst hpath
          have hcleaned : (lim.check request.path request.client request.now).2.lastShrink.get?
              request.path = (Limits.checkWindow lim.maxKeys
                (lim.lastShrink.get? request.path) w (keyOf request.path request.client)
                  request.now).2.1 := check_lastShrink_self hfound
          have hstamp := hcleaned.symm.trans hlast
          rw [checkWindow_lastShrink] at hstamp
          cases hcleanup : cleanupTable lim.maxKeys (lim.lastShrink.get? request.path) w
              (keyOf request.path request.client) request.now with
          | none =>
              rw [hcleanup] at hstamp
              exact h.cleaned _ last hstamp
          | some table =>
              rw [hcleanup] at hstamp
              obtain rfl := Option.some.inj hstamp
              exact hnow
        · exact h.cleaned path last ((check_lastShrink_other hpath).symm.trans hlast)

/-- **Where nothing is rounded, a run is the run on exact times.** -/
theorem run_eq (hnew : Limiter.new limits maxKeys = .ok lim)
    (hexact : Exact round readings limits) (requests : List Request)
    (hreadings : ∀ r ∈ requests, r.now ∈ readings) :
    (machine round).run lim requests = Limits.machine.run lim requests ∧
      Timed limits readings (Limits.machine.run lim requests) := by
  induction requests using List.reverseRecOn with
  | nil => exact ⟨rfl, timed_new hnew⟩
  | append_singleton past request ih =>
      obtain ⟨heq, htimed⟩ := ih fun r hr => hreadings r (List.mem_append_left _ hr)
      obtain ⟨hstep, hnext⟩ := htimed.step hexact (hreadings request (by simp))
      rw [Machine.run_concat, Machine.run_concat, heq, hstep]
      exact ⟨rfl, hnext⟩

theorem answerAfter_eq (hnew : Limiter.new limits maxKeys = .ok lim)
    (hexact : Exact round readings limits) (past : List Request) (request : Request)
    (hreadings : ∀ r ∈ past ++ [request], r.now ∈ readings) :
    (machine round).answerAfter lim past request =
      Limits.machine.answerAfter lim past request := by
  obtain ⟨heq, htimed⟩ := run_eq hnew hexact past fun r hr =>
    hreadings r (List.mem_append_left _ hr)
  rw [Machine.answerAfter, heq, (htimed.step hexact (hreadings request (by simp))).1]
  rfl

/-- The ceiling is then that on exact times. -/
theorem Timed.ceilingAt_iff (h : Timed limits readings lim) {request : Request}
    (hexact : Exact round readings limits) (hnow : request.now ∈ readings) :
    CeilingAt round lim request ↔ Limits.CeilingAt lim request := by
  refine exists_congr fun w => and_congr_right fun hfound => and_congr_right fun _ => ?_
  obtain ⟨limit, hlimit⟩ := h.configured _ w hfound
  rw [maybeShrink_eq (hexact.unrounded hlimit) hnow (h.cleaned request.path)]

end Run

/-! ## Retry-After -/

/-- A client that is refused on `path`, and not because the path's table is at the ceiling, has
an entry; it is told a wait that is positive and at most a window; and it is limited until that
wait is over, and no longer. The clock reads only `readings`. -/
def RetryAfterExact (round : ℚ → ℚ) (readings : Set ℚ) (lim : Limiter) (path : String)
    (window : ℚ) : Prop :=
  ∀ (past : List Request) (request : Request), Chronological (past ++ [request]) →
    (∀ r ∈ past ++ [request], r.now ∈ readings) → request.path = path →
    (machine round).answerAfter lim past request ≠ .ok none →
    ¬ CeilingAt round ((machine round).run lim past) request →
    ∃ w oldest rest wait,
      ((machine round).run lim (past ++ [request])).windows.get? path = some w ∧
      w.events.get? (keyOf path request.client) = some (oldest :: rest) ∧
      wait = round (round (oldest + window) - request.now) ∧
      (machine round).answerAfter lim past request = .ok (some wait) ∧
      0 < wait ∧ wait ≤ window ∧
      LimitedUntil (machine round) readings lim path request.client (past ++ [request])
        (request.now + wait)

section RetryAfter

variable {round : ℚ → ℚ} {readings : Set ℚ} {limits : Dict String (ℕ × ℚ)} {maxKeys : ℕ}
variable {lim : Limiter} {path client : String} {limit : ℕ} {window release : ℚ}

/-- What limits a client on exact times limits it where nothing is rounded. -/
theorem limitedUntil_of_exact (hexact : Exact round readings limits)
    (hnew : Limiter.new limits maxKeys = .ok lim) {past : List Request}
    (hpast : ∀ r ∈ past, r.now ∈ readings)
    (h : LimitedUntil Limits.machine Set.univ lim path client past release) :
    LimitedUntil (machine round) readings lim path client past release := by
  intro later next hchron hreadings hnext hclient
  have hall : ∀ r ∈ past ++ later ++ [next], r.now ∈ readings := by
    intro r hr
    rw [List.append_assoc] at hr
    exact (List.mem_append.1 hr).elim (hpast r) (hreadings r)
  obtain ⟨hrun, -⟩ := run_eq hnew hexact (past ++ later) fun r hr =>
    hall r (List.mem_append_left _ hr)
  rw [answerAfter_eq hnew hexact (past ++ later) next hall, hrun]
  exact h later next hchron (fun _ _ => Set.mem_univ _) hnext hclient

/-- **Retry-After is exact** on readings that need no rounding. -/
theorem retryAfter_exact (hexact : Exact round readings limits)
    (hnew : Limiter.new limits maxKeys = .ok lim)
    (hpath : limits.get? path = some (limit, window)) (hwindow : 0 < window) :
    RetryAfterExact round readings lim path window := by
  intro past request hchron hreadings hrequest hrefused hceiling
  have hnow : request.now ∈ readings := hreadings request (by simp)
  obtain ⟨hrun, htimed⟩ := run_eq hnew hexact past fun r hr =>
    hreadings r (List.mem_append_left _ hr)
  obtain ⟨hnext, hlater⟩ := run_eq hnew hexact _ hreadings
  rw [answerAfter_eq hnew hexact past request hreadings] at hrefused ⊢
  rw [hrun, htimed.ceilingAt_iff hexact hnow] at hceiling
  rw [hnext]
  obtain ⟨w, oldest, rest, wait, hfound, hentry, hwait, hanswer, hpos, hle, hlimited⟩ :=
    refused_until_retryAfter hnew hpath hwindow past request hchron hrequest hrefused hceiling
  have holdest : oldest ∈ readings :=
    hlater.stamped _ w hfound _ _ hentry oldest List.mem_cons_self
  refine ⟨w, oldest, rest, wait, hfound, hentry, ?_, hanswer, hpos, hle,
    limitedUntil_of_exact hexact hnew hreadings hlimited⟩
  rw [(hexact.unrounded hpath).wait oldest holdest request.now hnow]
  exact hwait

end RetryAfter

/-! ## Doubles -/

/-- The double nearest to a time. Times do not overflow. -/
def toDouble (x : ℚ) : ℚ :=
  match Double.nearest x with
  | .finite y => y
  | _ => x

theorem toDouble_of_isFloat {x : ℚ} (h : (Double.finite x).IsFloat) : toDouble x = x := by
  have hnearest : Double.nearest x = .finite x := h
  rw [toDouble, hnearest]

/-- Readings in units of `2^-20` seconds, over some thirty years. -/
def ticks : Set ℚ := {t | ∃ n : ℤ, |n| < 2 ^ 50 ∧ t = n / 2 ^ 20}

theorem toDouble_tick {n : ℤ} (h : |n| < 2 ^ 53) : toDouble (n / 2 ^ 20) = n / 2 ^ 20 := by
  have hsize : |(n : ℚ) / 2 ^ 20| = (|n| : ℤ) * (2 : ℚ) ^ (-20 : ℤ) := by
    rw [abs_div, Int.cast_abs, zpow_neg, div_eq_mul_inv]
    norm_num
  have hbound : (|n| : ℤ) * (2 : ℚ) ^ (-20 : ℤ) < 2 ^ 1024 := by
    have hcast : ((|n| : ℤ) : ℚ) < 2 ^ 53 := by exact_mod_cast h
    calc ((|n| : ℤ) : ℚ) * 2 ^ (-20 : ℤ)
        ≤ (|n| : ℤ) * 1 := mul_le_mul_of_nonneg_left (by norm_num) (by positivity)
      _ = (|n| : ℤ) := mul_one _
      _ < 2 ^ 53 := hcast
      _ < 2 ^ 1024 := pow_lt_pow_right₀ one_lt_two (by norm_num)
  exact toDouble_of_isFloat
    (Double.isFloat_of_digits hsize h (by norm_num) (hsize.trans_lt hbound))

/-- On ticks the limiter's doubles are exact, where its windows are ticks too. -/
theorem exact_ticks {limits : Dict String (ℕ × ℚ)}
    (hwindows : ∀ limited ∈ limits.values, limited.2 ∈ ticks) : Exact toDouble ticks limits := by
  intro limited hlimited
  obtain ⟨n, hn, hwindow⟩ := hwindows limited hlimited
  rw [abs_lt] at hn
  refine ⟨?_, ?_, ?_⟩
  · rintro s ⟨i, hi, rfl⟩ t ⟨j, hj, rfl⟩
    rw [abs_lt] at hi hj
    rw [← sub_div, ← Int.cast_sub, toDouble_tick (abs_lt.2 (by omega))]
  · rintro t ⟨j, hj, rfl⟩
    rw [abs_lt] at hj
    rw [hwindow, ← sub_div, ← Int.cast_sub, toDouble_tick (abs_lt.2 (by omega))]
  · rintro s ⟨i, hi, rfl⟩ t ⟨j, hj, rfl⟩
    rw [abs_lt] at hi hj
    rw [hwindow, ← add_div, ← Int.cast_add, toDouble_tick (abs_lt.2 (by omega)), ← sub_div,
      ← Int.cast_sub, toDouble_tick (abs_lt.2 (by omega))]

theorem windows_twoAMinute : ∀ limited ∈ twoAMinute.values, limited.2 ∈ ticks := by
  intro limited hlimited
  rw [show twoAMinute.values = [(2, 60)] by decide +kernel, List.mem_singleton] at hlimited
  rw [hlimited]
  exact ⟨60 * 2 ^ 20, by decide, by norm_num⟩

theorem retryAfter_exact_thirdAsk :
    ∃ w oldest rest wait,
      ((machine toDouble).run (twoAMinuteLimiter 1)
        ([⟨"/ask", "a", 0⟩, ⟨"/ask", "a", 1⟩] ++ [⟨"/ask", "a", 2⟩])).windows.get? "/ask" =
          some w ∧
      w.events.get? (keyOf "/ask" "a") = some (oldest :: rest) ∧
      wait = toDouble (toDouble (oldest + 60) - 2) ∧
      (machine toDouble).answerAfter (twoAMinuteLimiter 1)
        [⟨"/ask", "a", 0⟩, ⟨"/ask", "a", 1⟩] ⟨"/ask", "a", 2⟩ = .ok (some wait) ∧
      0 < wait ∧ wait ≤ 60 ∧
      LimitedUntil (machine toDouble) ticks (twoAMinuteLimiter 1) "/ask" "a"
        ([⟨"/ask", "a", 0⟩, ⟨"/ask", "a", 1⟩] ++ [⟨"/ask", "a", 2⟩]) (2 + wait) := by
  have htick : ∀ n : ℕ, n < 2 ^ 30 → (n : ℚ) ∈ ticks := fun n hn =>
    ⟨n * 2 ^ 20, by rw [abs_lt]; omega, by rw [Int.cast_mul]; norm_num⟩
  refine retryAfter_exact (exact_ticks windows_twoAMinute) (new_twoAMinute 1) get?_twoAMinute
    (by decide +kernel) [⟨"/ask", "a", 0⟩, ⟨"/ask", "a", 1⟩] ⟨"/ask", "a", 2⟩ (by decide +kernel)
    ?_ rfl (by decide +kernel) (by decide +kernel)
  simpa using ⟨htick 0 (by norm_num), htick 1 (by norm_num), htick 2 (by norm_num)⟩

/-- The readings that are doubles. -/
def doubles : Set ℚ := {t | (Double.finite t).IsFloat}

instance (t : ℚ) : Decidable (t ∈ doubles) :=
  inferInstanceAs (Decidable (Double.finite t).IsFloat)

/-- 14.814341507 seconds, as the clock reads them. -/
def nanosecondReading : ℚ := toDouble (14814341507 / 10 ^ 9)

/-- A client spends its two requests at that reading and asks again at 20. It is told a wait, and
when the wait is over it is refused still. -/
theorem retryAfter_rounded :
    ¬ ∀ (limits : Dict String (ℕ × ℚ)) (maxKeys : ℕ) (lim : Limiter) (path : String) (limit : ℕ)
        (window : ℚ),
      Limiter.new limits maxKeys = .ok lim → 1 ≤ maxKeys →
      limits.get? path = some (limit, window) → 0 < window → window ∈ doubles →
      RetryAfterExact toDouble doubles lim path window := by
  intro hexact
  let spent : List Request := [⟨"/ask", "a", nanosecondReading⟩, ⟨"/ask", "a", nanosecondReading⟩]
  let third : Request := ⟨"/ask", "a", 20⟩
  let wait : ℚ := toDouble (toDouble (nanosecondReading + 60) - 20)
  let fourth : Request := ⟨"/ask", "a", 20 + wait⟩
  obtain ⟨-, -, -, told, -, -, -, hanswer, -, -, hlimited⟩ :=
    hexact twoAMinute 1 (twoAMinuteLimiter 1) "/ask" 2 60 (new_twoAMinute 1) le_rfl
      get?_twoAMinute (by decide +kernel) (by decide +kernel) spent third (by decide +kernel)
      (by decide +kernel) rfl (by decide +kernel) (by decide +kernel)
  have hwait : (machine toDouble).answerAfter (twoAMinuteLimiter 1) spent third =
      .ok (some wait) := by decide +kernel
  obtain rfl : wait = told := by simpa using hwait.symm.trans hanswer
  have hadmitted := (hlimited [] fourth (by decide +kernel) (by decide +kernel) rfl rfl).2 le_rfl
    (by simp)
  -- The fourth request is refused, and told to wait no time at all.
  have hrefused : (machine toDouble).answerAfter (twoAMinuteLimiter 1) (spent ++ [third] ++ [])
      fourth = .ok (some 0) := by decide +kernel
  have hroom : (((machine toDouble).run (twoAMinuteLimiter 1)
      (spent ++ [third] ++ [])).windows.get? "/ask").map (fun w => w.events.size) = some 1 := by
    decide +kernel
  rcases hadmitted with hnone | ⟨w, hfound, -, hsize⟩
  · rw [hrefused] at hnone
    cases hnone
  · rw [hfound, Option.map_some, Option.some.injEq, hsize] at hroom
    exact absurd hroom (by decide)

end DealFinder.Limits.Rounded
