/-
# The per-instance rate limiter

`compliance.SlidingWindowRateLimiter` keeps, for each user, the queue of the
requests it admitted and admits another while fewer than `limit` of them lie in
the last `window` seconds. `ratelimit.Limiter` holds one such window per limited
path, keyed by `path|client`, and bounds its memory: a cleanup forgets idle
clients first and then the least recently seen clients below their limit, and
past `2 * max_keys` clients an untracked client is refused.

Times are exact rationals (`Limits.Rounded` has the limiter on doubles). A call receives the
reading its clock would return.
-/

import DealFinder.Math.Dict
import DealFinder.Math.Machine
import DealFinder.Math.Rank
import Mathlib.Data.Prod.Lex
import Mathlib.Data.String.Basic
import Mathlib.Algebra.Order.Ring.Rat

namespace DealFinder.Limits

open DealFinder.Math

/-- The exceptions the limiter can raise. -/
inductive PyError
  | valueError (message : String)
  | indexError
  deriving DecidableEq

/-- `compliance.SlidingWindowRateLimiter`: per user, the times of the admitted
requests, oldest first. -/
structure SlidingWindowRateLimiter where
  limit : ℕ
  window : ℚ
  events : Dict String (List ℚ)
  /-- The constructor refuses a limit below one. -/
  limit_pos : 1 ≤ limit

namespace SlidingWindowRateLimiter

/-- `SlidingWindowRateLimiter.__init__`. -/
def new (limit : ℕ) (window : ℚ) : Except PyError SlidingWindowRateLimiter :=
  if hlimit : limit < 1 then .error (.valueError "limit must be >= 1")
  else .ok ⟨limit, window, .empty, not_lt.1 hlimit⟩

/-- `SlidingWindowRateLimiter.allow`. The table is a `defaultdict`, so asking
about an unknown user starts from an empty queue. -/
def allow (w : SlidingWindowRateLimiter) (user_id : String) (now : ℚ) :
    Bool × SlidingWindowRateLimiter :=
  let events := (w.events.getD user_id []).dropWhile fun t => decide (t ≤ now - w.window)
  if w.limit ≤ events.length then
    (false, { w with events := w.events.set user_id events })
  else
    (true, { w with events := w.events.set user_id (events ++ [now]) })

/-- `not ev or ev[-1] <= now - window.window`: nothing of the queue is live. -/
def idle (w : SlidingWindowRateLimiter) (now : ℚ) (ev : List ℚ) : Bool :=
  match ev.getLast? with
  | none => true
  | some last => decide (last ≤ now - w.window)

/-- The table once its idle clients are deleted. -/
def nonIdle (w : SlidingWindowRateLimiter) (now : ℚ) : Dict String (List ℚ) :=
  w.events.filter fun _ ev => !w.idle now ev

/-- `(ev[-1], k)` for the clients of a table that are below the limit. -/
def openKeys (w : SlidingWindowRateLimiter) (table : Dict String (List ℚ)) :
    List (ℚ ×ₗ String) :=
  table.entries.filterMap fun entry =>
    if entry.2.length < w.limit then entry.2.getLast?.map fun last => toLex (last, entry.1)
    else none

/-- `int(self.max_keys * 0.9)`: the size a cleanup aims at. -/
def cleanupTarget (maxKeys : ℕ) : ℕ := maxKeys * 9 / 10

/-- `len(window._events) - int(self.max_keys * 0.9)`, after the idle clients left. -/
def excess (maxKeys : ℕ) (w : SlidingWindowRateLimiter) (now : ℚ) : ℤ :=
  (w.nonIdle now).size - cleanupTarget maxKeys

/-- `Limiter._shrink`. -/
def shrink (maxKeys : ℕ) (w : SlidingWindowRateLimiter) (now : ℚ) :
    SlidingWindowRateLimiter :=
  let events := w.nonIdle now
  let excess := excess maxKeys w now
  if excess ≤ 0 then { w with events := events }
  else
    let open_keys := (w.openKeys events).insertionSort (· ≤ ·)
    { w with events := events.eraseAll ((open_keys.take excess.toNat).map fun e => (ofLex e).2) }

end SlidingWindowRateLimiter

open SlidingWindowRateLimiter

/-- `SHRINK_EVERY_S`. -/
def shrinkEveryS : ℚ := 1

/-- A cleanup runs at most once per `SHRINK_EVERY_S`; `none` stands for the
`-inf` of a path never cleaned. -/
def shrinkDue (lastShrink : Option ℚ) (now : ℚ) : Bool :=
  match lastShrink with
  | none => true
  | some last => decide (shrinkEveryS ≤ now - last)

/-- `Limiter._maybe_shrink`, on one path's last cleanup time and window. -/
def maybeShrink (maxKeys : ℕ) (lastShrink : Option ℚ) (w : SlidingWindowRateLimiter) (now : ℚ) :
    Option ℚ × SlidingWindowRateLimiter :=
  if shrinkDue lastShrink now then (some now, w.shrink maxKeys now) else (lastShrink, w)

/-- `None` when allowed, else the seconds to wait; or the exception raised. -/
abbrev Answer := Except PyError (Option ℚ)

/-- The end of `Limiter.check`: ask the window, clean up when it has grown past
`max_keys`, and answer. -/
def askWindow (maxKeys : ℕ) (lastShrink : Option ℚ) (w : SlidingWindowRateLimiter) (key : String)
    (now : ℚ) : Answer × Option ℚ × SlidingWindowRateLimiter :=
  let asked := w.allow key now
  let cleaned :=
    if maxKeys < asked.2.events.size then maybeShrink maxKeys lastShrink asked.2 now
    else (lastShrink, asked.2)
  if asked.1 then (.ok none, cleaned)
  else
    match cleaned.2.events.getD key [] with
    | oldest :: _ => (.ok (some (oldest + w.window - now)), cleaned)
    -- No reachable table gets here. The lookup of a `defaultdict` would also
    -- leave an empty queue behind.
    | [] => (.error .indexError, cleaned)

/-- `Limiter.check` once the path's window is found. -/
def checkWindow (maxKeys : ℕ) (lastShrink : Option ℚ) (w : SlidingWindowRateLimiter)
    (key : String) (now : ℚ) : Answer × Option ℚ × SlidingWindowRateLimiter :=
  if key ∉ w.events ∧ 2 * maxKeys ≤ w.events.size then
    let cleaned := maybeShrink maxKeys lastShrink w now
    if 2 * maxKeys ≤ cleaned.2.events.size then (.ok (some w.window), cleaned)
    else askWindow maxKeys cleaned.1 cleaned.2 key now
  else askWindow maxKeys lastShrink w key now

/-- `ratelimit.Limiter`: a window and a last cleanup time per limited path. -/
structure Limiter where
  windows : Dict String SlidingWindowRateLimiter
  maxKeys : ℕ
  lastShrink : Dict String ℚ

namespace Limiter

/-- `Limiter.__init__`, from a table `path -> (requests, window seconds)`. -/
def new (limits : Dict String (ℕ × ℚ)) (maxKeys : ℕ) : Except PyError Limiter := do
  let windows ← limits.entries.foldlM
    (fun windows entry => do
      let w ← SlidingWindowRateLimiter.new entry.2.1 entry.2.2
      pure (windows.set entry.1 w)) Dict.empty
  pure ⟨windows, maxKeys, .empty⟩

/-- `f"{path}|{client}"`. -/
def keyOf (path client : String) : String := path ++ "|" ++ client

/-- `Limiter.check`. -/
def check (lim : Limiter) (path client : String) (now : ℚ) : Answer × Limiter :=
  match lim.windows.get? path with
  | none => (.ok none, lim)
  | some w =>
      let checked := checkWindow lim.maxKeys (lim.lastShrink.get? path) w (keyOf path client) now
      (checked.1,
        { lim with
          windows := lim.windows.set path checked.2.2
          lastShrink :=
            match checked.2.1 with
            | none => lim.lastShrink
            | some last => lim.lastShrink.set path last })

end Limiter

/-- `ratelimit.LIMITS`. -/
def defaultLimits : Dict String (ℕ × ℚ) where
  entries :=
    [("/ask", 5, 60), ("/ask_agentic", 5, 60), ("/review", 5, 60), ("/search", 30, 10),
      ("/search/stream", 30, 10), ("/check", 30, 10), ("/ranked", 30, 10), ("/semantic", 30, 10)]
  nodup_keys := by decide

/-- One call of `Limiter.check`, with the reading of its clock. -/
structure Request where
  path : String
  client : String
  now : ℚ
  deriving DecidableEq

/-- The limiter as a machine that answers requests. -/
def machine : Machine Limiter Request Answer where
  step lim request := lim.check request.path request.client request.now

/-- The clock never goes back. -/
def Chronological (requests : List Request) : Prop :=
  requests.Pairwise fun earlier later => earlier.now ≤ later.now

instance (requests : List Request) : Decidable (Chronological requests) :=
  inferInstanceAs (Decidable (requests.Pairwise fun earlier later => earlier.now ≤ later.now))

end DealFinder.Limits
