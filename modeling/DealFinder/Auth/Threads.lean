/-
# Concurrent calls of `key_for`

Threads share one `_Jwks`: its fields, without a lock, and its lock. A thread is
somewhere in `key_for` (`Pc`), and an event lets one thread take its next atomic
step at a reading of the clock. An event that its thread cannot take changes
nothing, so every list of events is a schedule.

`turn` is the code of `key_for`, cut at its atomic steps. A thread running alone
computes `keyFor` (`run_solo`).
-/

import DealFinder.Auth.Jwks
import Mathlib.Data.List.Basic
import Mathlib.Logic.Function.Basic
import Mathlib.Data.Set.Function

namespace DealFinder.Auth.Threads

open DealFinder.Math

universe u v

variable {Key : Type u} {τ : Type v}

/-- Where a thread is in `key_for`. The first lookup is kept as the set it read;
`held` is the local variable `key`. -/
inductive Pc (Key : Type u)
  | idle
  /-- About to look the kid up. -/
  | called (kid : Option String)
  /-- About to test `_needs_fetch`. -/
  | looked (kid : Option String) (read : Option (KeySet Key))
  /-- About to test the backoff. -/
  | stale (kid : Option String) (read : Option (KeySet Key))
  /-- At `lock.acquire`. -/
  | queued (kid : Option String) (read : Option (KeySet Key))
  /-- Lock held, about to test `_needs_fetch` again. -/
  | locked (kid : Option String) (read : Option (KeySet Key))
  /-- About to send the request. -/
  | sending (kid : Option String) (read : Option (KeySet Key))
  /-- The request is on the wire. -/
  | inFlight (kid : Option String) (read : Option (KeySet Key))
  /-- In the `except` clause, about to set `failed_at`. -/
  | failing (kid : Option String) (read : Option (KeySet Key)) (exc : String)
  /-- About to release, then return the key in hand or raise. -/
  | raising (kid : Option String) (read : Option (KeySet Key)) (exc : String)
  /-- Clock read after a good fetch, about to set `keys`. -/
  | received (kid : Option String) (keys : KeySet Key) (time : ℚ)
  /-- About to set `fetched_at`. -/
  | stamping (kid : Option String) (time : ℚ)
  /-- About to release. -/
  | releasing (kid : Option String)
  /-- About to look the kid up for the last time. -/
  | released (kid : Option String)

/-- The local `key` of a call. -/
def held (kid : Option String) (read : Option (KeySet Key)) : Option Key :=
  read.bind fun keys => keys kid

/-- What an event lets a thread do. -/
inductive Action (Key : Type u)
  /-- Call `key_for`. -/
  | call (kid : Option String)
  /-- Take the next atomic step. -/
  | next
  /-- Give up waiting for the lock. -/
  | timeout
  /-- Get the network's answer. -/
  | reply (outcome : Outcome Key)

/-- What the world sees of a step. -/
inductive Signal (Key : Type u)
  | silent
  | fetchStarted
  | fetchFailed
  | fetchSucceeded
  | answered (answer : Answer Key)
  deriving DecidableEq

/-- The effect of a step: where the thread is now, and what it left. -/
structure Turn (Key : Type u) (τ : Type v) where
  pc : Pc Key
  cache : Jwks Key
  lock : Option τ
  signal : Signal Key

/-- The atomic steps of `_Jwks.key_for`, as taken by `thread` at the reading `now`. -/
def turn (cache : Jwks Key) (lock : Option τ) (thread : τ) (now : ℚ) :
    Action Key → Pc Key → Option (Turn Key τ)
  | .call kid, .idle => some ⟨.called kid, cache, lock, .silent⟩
  | .next, .called kid => some ⟨.looked kid cache.keys, cache, lock, .silent⟩
  | .next, .looked kid read =>
      if cache.needsFetch kid now then some ⟨.stale kid read, cache, lock, .silent⟩
      else some ⟨.idle, cache, lock, .answered (.orInvalid (held kid read) kid)⟩
  | .next, .stale kid read =>
      if cache.backingOff now then
        some ⟨.idle, cache, lock,
          .answered (.orUnavailable (held kid read) "recent fetch failed")⟩
      else some ⟨.queued kid read, cache, lock, .silent⟩
  | .next, .queued kid read =>
      match lock with
      | none => some ⟨.locked kid read, cache, some thread, .silent⟩
      | some _ => none
  | .timeout, .queued kid read =>
      some ⟨.idle, cache, lock, .answered (.orUnavailable (held kid read) "fetch in progress")⟩
  | .next, .locked kid read =>
      if cache.needsFetch kid now then some ⟨.sending kid read, cache, lock, .silent⟩
      else some ⟨.releasing kid, cache, lock, .silent⟩
  | .next, .sending kid read => some ⟨.inFlight kid read, cache, lock, .fetchStarted⟩
  | .reply outcome, .inFlight kid read =>
      match outcome with
      | .error exc => some ⟨.failing kid read exc, cache, lock, .silent⟩
      | .ok keys => some ⟨.received kid keys now, cache, lock, .fetchSucceeded⟩
  | .next, .failing kid read exc =>
      some ⟨.raising kid read exc, { cache with failedAt := some now }, lock, .fetchFailed⟩
  | .next, .raising kid read exc =>
      some ⟨.idle, cache, none, .answered (.orUnavailable (held kid read) exc)⟩
  | .next, .received kid keys time =>
      some ⟨.stamping kid time, { cache with keys := some keys }, lock, .silent⟩
  | .next, .stamping kid time =>
      some ⟨.releasing kid, { cache with fetchedAt := some time }, lock, .silent⟩
  | .next, .releasing kid => some ⟨.released kid, cache, none, .silent⟩
  | .next, .released kid =>
      some ⟨.idle, cache, lock, .answered (.orInvalid (cache.lookup kid) kid)⟩
  | _, _ => none

/-- The steps that `turn` allows, by name. -/
inductive Taken (cache : Jwks Key) (lock : Option τ) (thread : τ) (now : ℚ) :
    Action Key → Pc Key → Turn Key τ → Prop
  | call (kid : Option String) :
      Taken cache lock thread now (.call kid) .idle ⟨.called kid, cache, lock, .silent⟩
  | lookup (kid : Option String) :
      Taken cache lock thread now .next (.called kid) ⟨.looked kid cache.keys, cache, lock, .silent⟩
  | expired (kid : Option String) (read : Option (KeySet Key))
      (hneeds : cache.needsFetch kid now = true) :
      Taken cache lock thread now .next (.looked kid read) ⟨.stale kid read, cache, lock, .silent⟩
  | fresh (kid : Option String) (read : Option (KeySet Key))
      (hneeds : cache.needsFetch kid now = false) :
      Taken cache lock thread now .next (.looked kid read)
        ⟨.idle, cache, lock, .answered (.orInvalid (held kid read) kid)⟩
  | backoff (kid : Option String) (read : Option (KeySet Key))
      (hbackoff : cache.backingOff now = true) :
      Taken cache lock thread now .next (.stale kid read)
        ⟨.idle, cache, lock, .answered (.orUnavailable (held kid read) "recent fetch failed")⟩
  | queue (kid : Option String) (read : Option (KeySet Key))
      (hbackoff : cache.backingOff now = false) :
      Taken cache lock thread now .next (.stale kid read) ⟨.queued kid read, cache, lock, .silent⟩
  | acquire (kid : Option String) (read : Option (KeySet Key)) (hfree : lock = none) :
      Taken cache lock thread now .next (.queued kid read)
        ⟨.locked kid read, cache, some thread, .silent⟩
  | timeout (kid : Option String) (read : Option (KeySet Key)) :
      Taken cache lock thread now .timeout (.queued kid read)
        ⟨.idle, cache, lock, .answered (.orUnavailable (held kid read) "fetch in progress")⟩
  | refetch (kid : Option String) (read : Option (KeySet Key))
      (hneeds : cache.needsFetch kid now = true) :
      Taken cache lock thread now .next (.locked kid read) ⟨.sending kid read, cache, lock, .silent⟩
  | refreshed (kid : Option String) (read : Option (KeySet Key))
      (hneeds : cache.needsFetch kid now = false) :
      Taken cache lock thread now .next (.locked kid read) ⟨.releasing kid, cache, lock, .silent⟩
  | send (kid : Option String) (read : Option (KeySet Key)) :
      Taken cache lock thread now .next (.sending kid read)
        ⟨.inFlight kid read, cache, lock, .fetchStarted⟩
  | replyError (kid : Option String) (read : Option (KeySet Key)) (exc : String) :
      Taken cache lock thread now (.reply (.error exc)) (.inFlight kid read)
        ⟨.failing kid read exc, cache, lock, .silent⟩
  | setFailedAt (kid : Option String) (read : Option (KeySet Key)) (exc : String) :
      Taken cache lock thread now .next (.failing kid read exc)
        ⟨.raising kid read exc, { cache with failedAt := some now }, lock, .fetchFailed⟩
  | raise (kid : Option String) (read : Option (KeySet Key)) (exc : String) :
      Taken cache lock thread now .next (.raising kid read exc)
        ⟨.idle, cache, none, .answered (.orUnavailable (held kid read) exc)⟩
  | replyOk (kid : Option String) (read : Option (KeySet Key)) (keys : KeySet Key) :
      Taken cache lock thread now (.reply (.ok keys)) (.inFlight kid read)
        ⟨.received kid keys now, cache, lock, .fetchSucceeded⟩
  | setKeys (kid : Option String) (keys : KeySet Key) (time : ℚ) :
      Taken cache lock thread now .next (.received kid keys time)
        ⟨.stamping kid time, { cache with keys := some keys }, lock, .silent⟩
  | setFetchedAt (kid : Option String) (time : ℚ) :
      Taken cache lock thread now .next (.stamping kid time)
        ⟨.releasing kid, { cache with fetchedAt := some time }, lock, .silent⟩
  | release (kid : Option String) :
      Taken cache lock thread now .next (.releasing kid) ⟨.released kid, cache, none, .silent⟩
  | answer (kid : Option String) :
      Taken cache lock thread now .next (.released kid)
        ⟨.idle, cache, lock, .answered (.orInvalid (cache.lookup kid) kid)⟩

theorem turn_taken {cache : Jwks Key} {lock : Option τ} {thread : τ} {now : ℚ}
    {action : Action Key} {pc : Pc Key} {t : Turn Key τ}
    (h : turn cache lock thread now action pc = some t) :
    Taken cache lock thread now action pc t := by
  cases pc with
  | idle =>
      cases action with
      | call kid =>
          cases Option.some.inj h
          exact .call kid
      | next | timeout | reply _ => cases h
  | called kid =>
      cases action with
      | next =>
          cases Option.some.inj h
          exact .lookup kid
      | call _ | timeout | reply _ => cases h
  | looked kid read =>
      cases action with
      | next =>
          cases htest : cache.needsFetch kid now with
          | true =>
              simp only [turn, htest, if_true, Option.some.injEq] at h
              subst h
              exact .expired kid read htest
          | false =>
              simp only [turn, htest, Bool.false_eq_true, if_false, Option.some.injEq] at h
              subst h
              exact .fresh kid read htest
      | call _ | timeout | reply _ => cases h
  | stale kid read =>
      cases action with
      | next =>
          cases htest : cache.backingOff now with
          | true =>
              simp only [turn, htest, if_true, Option.some.injEq] at h
              subst h
              exact .backoff kid read htest
          | false =>
              simp only [turn, htest, Bool.false_eq_true, if_false, Option.some.injEq] at h
              subst h
              exact .queue kid read htest
      | call _ | timeout | reply _ => cases h
  | queued kid read =>
      cases action with
      | next =>
          cases lock with
          | none =>
              cases Option.some.inj h
              exact .acquire kid read rfl
          | some _ => cases h
      | timeout =>
          cases Option.some.inj h
          exact .timeout kid read
      | call _ | reply _ => cases h
  | locked kid read =>
      cases action with
      | next =>
          cases htest : cache.needsFetch kid now with
          | true =>
              simp only [turn, htest, if_true, Option.some.injEq] at h
              subst h
              exact .refetch kid read htest
          | false =>
              simp only [turn, htest, Bool.false_eq_true, if_false, Option.some.injEq] at h
              subst h
              exact .refreshed kid read htest
      | call _ | timeout | reply _ => cases h
  | sending kid read =>
      cases action with
      | next =>
          cases Option.some.inj h
          exact .send kid read
      | call _ | timeout | reply _ => cases h
  | inFlight kid read =>
      cases action with
      | reply outcome =>
          cases outcome with
          | error exc =>
              cases Option.some.inj h
              exact .replyError kid read exc
          | ok keys =>
              cases Option.some.inj h
              exact .replyOk kid read keys
      | call _ | next | timeout => cases h
  | failing kid read exc =>
      cases action with
      | next =>
          cases Option.some.inj h
          exact .setFailedAt kid read exc
      | call _ | timeout | reply _ => cases h
  | raising kid read exc =>
      cases action with
      | next =>
          cases Option.some.inj h
          exact .raise kid read exc
      | call _ | timeout | reply _ => cases h
  | received kid keys time =>
      cases action with
      | next =>
          cases Option.some.inj h
          exact .setKeys kid keys time
      | call _ | timeout | reply _ => cases h
  | stamping kid time =>
      cases action with
      | next =>
          cases Option.some.inj h
          exact .setFetchedAt kid time
      | call _ | timeout | reply _ => cases h
  | releasing kid =>
      cases action with
      | next =>
          cases Option.some.inj h
          exact .release kid
      | call _ | timeout | reply _ => cases h
  | released kid =>
      cases action with
      | next =>
          cases Option.some.inj h
          exact .answer kid
      | call _ | timeout | reply _ => cases h

/-- The shared cache, who holds its lock, and where each thread is. -/
structure State (Key : Type u) (τ : Type v) where
  cache : Jwks Key
  lock : Option τ
  pc : τ → Pc Key

/-- A thread takes a step at a reading of the clock. -/
structure Event (Key : Type u) (τ : Type v) where
  thread : τ
  time : ℚ
  action : Action Key

/-- No thread is in a call and nothing was fetched. -/
def init : State Key τ := ⟨.init, none, fun _ => .idle⟩

/-- The clock never goes back. -/
def Chronological (events : List (Event Key τ)) : Prop :=
  events.Pairwise fun earlier later => earlier.time ≤ later.time

instance (events : List (Event Key τ)) : Decidable (Chronological events) :=
  inferInstanceAs (Decidable (events.Pairwise fun earlier later => earlier.time ≤ later.time))

theorem Chronological.le_last {past : List (Event Key τ)} {e : Event Key τ}
    (h : Chronological (past ++ [e])) : ∀ earlier ∈ past, earlier.time ≤ e.time :=
  fun earlier hmem => (List.pairwise_append.1 h).2.2 earlier hmem e (by simp)

theorem Chronological.left {first second : List (Event Key τ)}
    (h : Chronological (first ++ second)) : Chronological first :=
  (List.pairwise_append.1 h).1

theorem Chronological.exists_bound {events : List (Event Key τ)} (h : Chronological events) :
    ∃ now, ∀ e ∈ events, e.time ≤ now := by
  rcases List.eq_nil_or_concat' events with rfl | ⟨past, e, rfl⟩
  · exact ⟨0, by simp⟩
  · refine ⟨e.time, fun earlier hmem => ?_⟩
    cases List.mem_append.1 hmem with
    | inl hmem => exact h.le_last earlier hmem
    | inr hmem => rw [List.mem_singleton.1 hmem]

/-! ## The lock -/

/-- Between acquiring the lock and releasing it. -/
def Pc.inside : Pc Key → Bool
  | .locked .. | .sending .. | .inFlight .. | .failing .. | .raising .. | .received ..
  | .stamping .. | .releasing .. => true
  | _ => false

section Taken

variable {cache : Jwks Key} {lock : Option τ} {thread : τ} {now : ℚ}
variable {action : Action Key} {pc : Pc Key} {t : Turn Key τ}

/-- A step keeps the lock and the thread's side of it, acquires a free lock, or
releases the lock. -/
theorem Taken.lock_cases (h : Taken cache lock thread now action pc t) :
    (t.lock = lock ∧ t.pc.inside = pc.inside) ∨
      (lock = none ∧ t.lock = some thread ∧ t.pc.inside = true) ∨
      (pc.inside = true ∧ t.lock = none ∧ t.pc.inside = false) := by
  cases h with
  | acquire kid read hfree => exact Or.inr (Or.inl ⟨hfree, rfl, rfl⟩)
  | raise kid read exc => exact Or.inr (Or.inr ⟨rfl, rfl, rfl⟩)
  | release kid => exact Or.inr (Or.inr ⟨rfl, rfl, rfl⟩)
  | _ => exact Or.inl ⟨rfl, rfl⟩

end Taken

/-- The lock is held by the one thread that is inside. -/
def Exclusive (s : State Key τ) : Prop :=
  ∀ thread, (s.pc thread).inside = true ↔ s.lock = some thread

theorem exclusive_init : Exclusive (init : State Key τ) := by
  intro thread
  simp [init, Pc.inside]

theorem Exclusive.eq {s : State Key τ} (h : Exclusive s) {first second : τ}
    (hfirst : (s.pc first).inside = true) (hsecond : (s.pc second).inside = true) :
    first = second :=
  Option.some.inj (((h first).1 hfirst).symm.trans ((h second).1 hsecond))

/-! ## The machine -/

variable [DecidableEq τ]

/-- The threads as a machine driven by a schedule. -/
def machine : Machine (State Key τ) (Event Key τ) (Signal Key) where
  step s e :=
    match turn s.cache s.lock e.thread e.time e.action (s.pc e.thread) with
    | none => (.silent, s)
    | some t => (t.signal, ⟨t.cache, t.lock, Function.update s.pc e.thread t.pc⟩)

/-- The state after `e.thread` took the step `t`. -/
def after (s : State Key τ) (e : Event Key τ) (t : Turn Key τ) : State Key τ :=
  ⟨t.cache, t.lock, Function.update s.pc e.thread t.pc⟩

section Step

variable {s : State Key τ} {e : Event Key τ} {t : Turn Key τ} {thread : τ}

@[simp] theorem after_cache : (after s e t).cache = t.cache := rfl

@[simp] theorem after_lock : (after s e t).lock = t.lock := rfl

@[simp]
theorem after_pc_self : (after s e t).pc e.thread = t.pc := Function.update_self ..

theorem after_pc_other (hne : thread ≠ e.thread) : (after s e t).pc thread = s.pc thread :=
  Function.update_of_ne hne ..

theorem step_of_turn (h : turn s.cache s.lock e.thread e.time e.action (s.pc e.thread) = some t) :
    machine.step s e = (t.signal, after s e t) := by
  simp only [machine, h, after]

/-- A step is taken by its thread alone, or changes nothing. -/
theorem step_cases (s : State Key τ) (e : Event Key τ) :
    machine.step s e = (.silent, s) ∨
      ∃ t, Taken s.cache s.lock e.thread e.time e.action (s.pc e.thread) t ∧
        machine.step s e = (t.signal, after s e t) := by
  cases hturn : turn s.cache s.lock e.thread e.time e.action (s.pc e.thread) with
  | none =>
      apply Or.inl
      simp only [machine, hturn]
  | some t =>
      apply Or.inr
      exact ⟨t, turn_taken hturn, step_of_turn hturn⟩

end Step

/-- Mutual exclusion is kept by every step. -/
theorem Exclusive.step {s : State Key τ} (h : Exclusive s) (e : Event Key τ) :
    Exclusive (machine.step s e).2 := by
  rcases step_cases s e with hsame | ⟨t, htaken, hstep⟩
  · rwa [hsame]
  · rw [hstep]
    intro thread
    have hown := h e.thread
    rcases htaken.lock_cases with ⟨hlock, hinside⟩ | ⟨hfree, hlock, hinside⟩ |
      ⟨hinside, hlock, houtside⟩
    · by_cases heq : thread = e.thread
      · subst heq
        simpa [hlock, hinside] using hown
      · simpa [after_pc_other heq, hlock] using h thread
    · by_cases heq : thread = e.thread
      · subst heq
        simp [hlock, hinside]
      · have hother := h thread
        rw [hfree] at hother
        simpa [after_pc_other heq, hlock, Ne.symm heq] using hother
    · by_cases heq : thread = e.thread
      · subst heq
        simp [hlock, houtside]
      · have hother := h thread
        rw [hown.1 hinside] at hother
        simpa [after_pc_other heq, hlock, Ne.symm heq] using hother

/-! ## A thread alone -/

/-- The answers a run gives, in order. -/
def answers (s : State Key τ) (events : List (Event Key τ)) : List (Answer Key) :=
  machine.observe
    (fun _ signal =>
      match signal with
      | .answered answer => some answer
      | _ => none)
    s events

/-- The steps of a whole call, at its readings of the clock. A call that ends
early leaves the later ones untaken. -/
def solo (thread : τ) (call : Call Key) : List (Event Key τ) :=
  [⟨thread, call.tested, .call call.kid⟩, ⟨thread, call.tested, .next⟩,
    ⟨thread, call.tested, .next⟩, ⟨thread, call.checked, .next⟩, ⟨thread, call.checked, .next⟩,
    ⟨thread, call.retested, .next⟩, ⟨thread, call.retested, .next⟩,
    ⟨thread, call.settled, .reply call.outcome⟩, ⟨thread, call.settled, .next⟩,
    ⟨thread, call.settled, .next⟩, ⟨thread, call.settled, .next⟩, ⟨thread, call.settled, .next⟩]

/-- **The sequential call is the thread's code run alone.** While no other
thread moves and the lock is free, the steps of one call leave the cache that
`keyFor` leaves and give its answer. -/
theorem run_solo (s : State Key τ) (thread : τ) (call : Call Key)
    (hfree : s.lock = none) (hidle : s.pc thread = .idle) :
    machine.run s (solo thread call) = { s with cache := (keyFor s.cache call).2 } ∧
      answers s (solo thread call) = [(keyFor s.cache call).1.answer] := by
  obtain ⟨cache, lock, pc⟩ := s
  simp only at hfree hidle
  subst hfree
  cases hstale : cache.needsFetch call.kid call.tested with
  | false =>
      simp [solo, answers, Machine.observe, machine, turn, hidle, hstale, keyFor, held, Jwks.lookup]
  | true =>
      cases hbackoff : cache.backingOff call.checked with
      | true =>
          simp [solo, answers, Machine.observe, machine, turn, hidle, hstale, hbackoff, keyFor,
            held, Jwks.lookup]
      | false =>
          cases hneeds : cache.needsFetch call.kid call.retested with
          | false =>
              simp [solo, answers, Machine.observe, machine, turn, hidle, hstale, hbackoff, hneeds,
                keyFor]
          | true =>
              cases houtcome : call.outcome with
              | error exc =>
                  simp [solo, answers, Machine.observe, machine, turn, hidle, hstale, hbackoff,
                    hneeds, houtcome, keyFor, held, Jwks.lookup, Jwks.fetch]
              | ok keys =>
                  simp [solo, answers, Machine.observe, machine, turn, hidle, hstale, hbackoff,
                    hneeds, houtcome, keyFor, Jwks.lookup, Jwks.fetch]

end DealFinder.Auth.Threads
