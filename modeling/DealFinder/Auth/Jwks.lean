/-
# The signing-key cache

`auth._Jwks` keeps one project's signing keys. The fields and the tests of the
cache are defined here once; `keyFor` runs them in one piece, for calls that do
not overlap. `Auth/Threads.lean` runs the same tests as the atomic steps of
threads.

Times are exact rationals, and a call receives the readings its clock would
return. A key set is what indexing sees of it: a partial map from key ids.
-/

import DealFinder.Math.Machine
import Mathlib.Algebra.Order.Ring.Rat

namespace DealFinder.Auth

open DealFinder.Math

universe u

variable {Key : Type u}

/-- `jwt.PyJWKSet`: indexing by key id is a partial map. -/
abbrev KeySet (Key : Type u) := Option String → Option Key

/-- What the network answers: a key set, or the text of the exception raised. -/
abbrev Outcome (Key : Type u) := Except String (KeySet Key)

/-- `_JWKS_TTL_S`. -/
def jwksTtlS : ℚ := 600

/-- `_JWKS_MIN_REFRESH_S`. -/
def jwksMinRefreshS : ℚ := 60

/-- `_JWKS_RETRY_S`. -/
def jwksRetryS : ℚ := 30

/-- The fields of `_Jwks`; `none` stands for the `-inf` of a time not set yet. -/
structure Jwks (Key : Type u) where
  keys : Option (KeySet Key)
  fetchedAt : Option ℚ
  failedAt : Option ℚ

/-- `now - since >= duration`. -/
def elapsed (since : Option ℚ) (now duration : ℚ) : Bool :=
  match since with
  | none => true
  | some t => decide (duration ≤ now - t)

/-- How `key_for` ends. -/
inductive Answer (Key : Type u)
  | key (key : Key)
  /-- `jwt.InvalidKeyError`, "no signing key with kid ...": a 401. -/
  | invalidKey (kid : Option String)
  /-- `_JwksUnavailable`: a 503. -/
  | unavailable (reason : String)
  deriving DecidableEq

namespace Answer

/-- The key in hand, else a 503. -/
def orUnavailable (key : Option Key) (reason : String) : Answer Key :=
  match key with
  | some key => .key key
  | none => .unavailable reason

/-- The key in hand, else a 401. -/
def orInvalid (key : Option Key) (kid : Option String) : Answer Key :=
  match key with
  | some key => .key key
  | none => .invalidKey kid

variable {held : Option Key} {kid other : Option String} {key : Key} {reason text : String}

@[simp]
theorem orUnavailable_eq_key : orUnavailable held reason = .key key ↔ held = some key := by
  cases held <;> simp [orUnavailable]

@[simp]
theorem orUnavailable_ne_invalidKey : orUnavailable held reason ≠ .invalidKey kid := by
  cases held <;> simp [orUnavailable]

@[simp]
theorem orUnavailable_eq_unavailable :
    orUnavailable held reason = .unavailable text ↔ held = none ∧ reason = text := by
  cases held <;> simp [orUnavailable]

@[simp]
theorem orInvalid_eq_key : orInvalid held kid = .key key ↔ held = some key := by
  cases held <;> simp [orInvalid]

@[simp]
theorem orInvalid_eq_invalidKey :
    orInvalid held kid = .invalidKey other ↔ held = none ∧ kid = other := by
  cases held <;> simp [orInvalid]

@[simp]
theorem orInvalid_ne_unavailable : orInvalid held kid ≠ .unavailable text := by
  cases held <;> simp [orInvalid]

end Answer

namespace Jwks

/-- `_Jwks.__init__`. -/
def init : Jwks Key := ⟨none, none, none⟩

/-- `_Jwks._lookup`. -/
def lookup (cache : Jwks Key) (kid : Option String) : Option Key :=
  cache.keys.bind fun keys => keys kid

/-- `_Jwks._needs_fetch`, at a reading of the clock. -/
def needsFetch (cache : Jwks Key) (kid : Option String) (now : ℚ) : Bool :=
  elapsed cache.fetchedAt now jwksTtlS ||
    ((cache.lookup kid).isNone && elapsed cache.fetchedAt now jwksMinRefreshS)

/-- The backoff test of `key_for`: a fetch failed within `_JWKS_RETRY_S`. -/
def backingOff (cache : Jwks Key) (now : ℚ) : Bool :=
  !elapsed cache.failedAt now jwksRetryS

/-- `_Jwks._fetch`: what an outcome at a reading of the clock does to the cache. -/
def fetch (cache : Jwks Key) (outcome : Outcome Key) (now : ℚ) : Jwks Key :=
  match outcome with
  | .ok keys => { cache with keys := some keys, fetchedAt := some now }
  | .error _ => { cache with failedAt := some now }

end Jwks

/-- One call of `key_for`: the key id, the readings of the clock in the order the
call takes them, and what the network would answer. A call that ends early leaves
the later readings unused. -/
structure Call (Key : Type u) where
  kid : Option String
  tested : ℚ
  checked : ℚ
  retested : ℚ
  settled : ℚ
  outcome : Outcome Key

/-- A fetch that ended, and when. -/
structure Fetch (Key : Type u) where
  time : ℚ
  outcome : Outcome Key

/-- How a call ends: its answer, its last reading of the clock, and its fetch. -/
structure Reply (Key : Type u) where
  answer : Answer Key
  time : ℚ
  fetch : Option (Fetch Key)

/-- `_Jwks.key_for`, when no other call holds the lock. -/
def keyFor (cache : Jwks Key) (call : Call Key) : Reply Key × Jwks Key :=
  let key := cache.lookup call.kid
  if !cache.needsFetch call.kid call.tested then
    (⟨.orInvalid key call.kid, call.tested, none⟩, cache)
  else if cache.backingOff call.checked then
    (⟨.orUnavailable key "recent fetch failed", call.checked, none⟩, cache)
  else if cache.needsFetch call.kid call.retested then
    let fetched := cache.fetch call.outcome call.settled
    match call.outcome with
    | .error exc =>
        (⟨.orUnavailable key exc, call.settled, some ⟨call.settled, call.outcome⟩⟩, fetched)
    | .ok _ =>
        (⟨.orInvalid (fetched.lookup call.kid) call.kid, call.settled,
          some ⟨call.settled, call.outcome⟩⟩, fetched)
  else (⟨.orInvalid (cache.lookup call.kid) call.kid, call.retested, none⟩, cache)

/-- The cache as a machine that answers calls one after the other. -/
def machine : Machine (Jwks Key) (Call Key) (Reply Key) where
  step := keyFor

/-- The clock goes forward within a call. -/
structure Call.Orderly (call : Call Key) : Prop where
  checked : call.tested ≤ call.checked
  retested : call.checked ≤ call.retested
  settled : call.retested ≤ call.settled

/-- Calls that do not overlap, on a clock that never goes back. -/
structure Sequential (calls : List (Call Key)) : Prop where
  orderly : ∀ call ∈ calls, call.Orderly
  disjoint : calls.Pairwise fun earlier later => earlier.settled ≤ later.tested

end DealFinder.Auth
