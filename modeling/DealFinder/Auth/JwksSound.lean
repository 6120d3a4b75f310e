/-
# What a sequential key cache may answer

The cache is a summary of the log of its fetches: the keys and the time of the
last good fetch and the time of the last failure (`Mirrors`). Each answer of
`keyFor` is then justified by the log.
-/

import DealFinder.Auth.Jwks

namespace DealFinder.Auth

open DealFinder.Math

universe u

variable {Key : Type u}

/-! ## The log of fetches -/

/-- The time and the keys of a fetch that succeeded. -/
def Fetch.good (fetch : Fetch Key) : Option (ℚ × KeySet Key) :=
  match fetch.outcome with
  | .ok keys => some (fetch.time, keys)
  | .error _ => none

/-- The time of a fetch that failed. -/
def Fetch.failure (fetch : Fetch Key) : Option ℚ :=
  match fetch.outcome with
  | .ok _ => none
  | .error _ => some fetch.time

/-- The most recent good fetch of a log. -/
def lastGood (log : List (Fetch Key)) : Option (ℚ × KeySet Key) :=
  (log.filterMap Fetch.good).getLast?

/-- A stamp of the last `duration` seconds. -/
def Within (duration now t : ℚ) : Prop := t ≤ now ∧ now - t < duration

/-- Some fetch of the log failed in the last `duration` seconds. -/
def FailedWithin (duration now : ℚ) (log : List (Fetch Key)) : Prop :=
  ∃ fetch ∈ log, ∃ t ∈ fetch.failure, Within duration now t

/-- The fetches of a run of calls. -/
def fetches (cache : Jwks Key) (calls : List (Call Key)) : List (Fetch Key) :=
  machine.observe (fun _ reply => reply.fetch) cache calls

/-- A cache that summarises a log, whose fetches all lie in the past. -/
structure Mirrors (log : List (Fetch Key)) (now : ℚ) (cache : Jwks Key) : Prop where
  keys : cache.keys = (lastGood log).map Prod.snd
  fetchedAt : cache.fetchedAt = (lastGood log).map Prod.fst
  failedAt : cache.failedAt = (log.filterMap Fetch.failure).getLast?
  past : ∀ fetch ∈ log, fetch.time ≤ now

variable {log : List (Fetch Key)} {now later : ℚ} {cache : Jwks Key}

theorem Mirrors.mono (h : Mirrors log now cache) (hle : now ≤ later) :
    Mirrors log later cache :=
  { h with past := fun fetch hfetch => (h.past fetch hfetch).trans hle }

theorem Mirrors.init : Mirrors ([] : List (Fetch Key)) now Jwks.init :=
  ⟨rfl, rfl, rfl, by simp⟩

/-- A fetch enters the log and the cache alike. -/
theorem Mirrors.fetch (h : Mirrors log now cache) (outcome : Outcome Key) :
    Mirrors (log ++ [⟨now, outcome⟩]) now (cache.fetch outcome now) := by
  have hpast : ∀ fetch ∈ log ++ [⟨now, outcome⟩], fetch.time ≤ now := by
    intro fetch hfetch
    cases List.mem_append.1 hfetch with
    | inl hold => exact h.past fetch hold
    | inr hnew => rw [List.mem_singleton.1 hnew]
  cases outcome with
  | error exc =>
      refine ⟨?_, ?_, ?_, hpast⟩
      · simpa [Jwks.fetch, lastGood, Fetch.good] using h.keys
      · simpa [Jwks.fetch, lastGood, Fetch.good] using h.fetchedAt
      · simp [Jwks.fetch, Fetch.failure]
  | ok keys =>
      refine ⟨?_, ?_, ?_, hpast⟩
      · simp [Jwks.fetch, lastGood, Fetch.good]
      · simp [Jwks.fetch, lastGood, Fetch.good]
      · simpa [Jwks.fetch, Fetch.failure] using h.failedAt

theorem lastGood_mem {t : ℚ} {keys : KeySet Key} (h : lastGood log = some (t, keys)) :
    ⟨t, .ok keys⟩ ∈ log := by
  obtain ⟨fetch, hfetch, hgood⟩ := List.mem_filterMap.1 (List.mem_of_getLast? h)
  obtain ⟨time, outcome⟩ := fetch
  cases outcome with
  | error exc => simp [Fetch.good] at hgood
  | ok found =>
      simp only [Fetch.good, Option.some.injEq, Prod.mk.injEq] at hgood
      obtain ⟨rfl, rfl⟩ := hgood
      exact hfetch

/-- What the cache holds for a key id comes from the last good fetch. -/
theorem Mirrors.lookup_eq (h : Mirrors log now cache) (kid : Option String) :
    cache.lookup kid = (lastGood log).bind fun good => good.2 kid := by
  rw [Jwks.lookup, h.keys]
  cases lastGood log <;> rfl

/-- The age of the last good fetch, while `duration` has not passed since. -/
theorem Mirrors.good_within (h : Mirrors log now cache) {duration : ℚ}
    (hyoung : elapsed cache.fetchedAt now duration = false) :
    ∃ t keys, lastGood log = some (t, keys) ∧ Within duration now t := by
  rw [h.fetchedAt] at hyoung
  cases hgood : lastGood log with
  | none => simp [hgood, elapsed] at hyoung
  | some good =>
      obtain ⟨t, keys⟩ := good
      refine ⟨t, keys, rfl, h.past _ (lastGood_mem hgood), ?_⟩
      simpa [hgood, elapsed] using hyoung

/-- While the cache backs off, a fetch failed recently. -/
theorem Mirrors.failedWithin (h : Mirrors log now cache)
    (hbackoff : cache.backingOff now = true) : FailedWithin jwksRetryS now log := by
  rw [Jwks.backingOff, Bool.not_eq_true', h.failedAt] at hbackoff
  cases hlast : (log.filterMap Fetch.failure).getLast? with
  | none => simp [hlast, elapsed] at hbackoff
  | some t =>
      obtain ⟨fetch, hfetch, hfailure⟩ := List.mem_filterMap.1 (List.mem_of_getLast? hlast)
      have htime : fetch.time = t := by
        unfold Fetch.failure at hfailure
        split at hfailure
        · cases hfailure
        · exact Option.some.inj hfailure
      refine ⟨fetch, hfetch, t, hfailure, htime ▸ h.past fetch hfetch, ?_⟩
      simpa [hlast, elapsed] using hbackoff

/-! ## Justified answers -/

/-- What the log has to say for an answer about `kid` at `now`. -/
def Justified (log : List (Fetch Key)) (kid : Option String) (now : ℚ) :
    Answer Key → Prop
  | .key key => ∃ t keys, lastGood log = some (t, keys) ∧ keys kid = some key ∧
      (Within jwksTtlS now t ∨ FailedWithin jwksRetryS now log)
  | .invalidKey other => other = kid ∧
      ∃ t keys, lastGood log = some (t, keys) ∧ keys kid = none ∧ Within jwksMinRefreshS now t
  | .unavailable _ => (∀ t keys, lastGood log = some (t, keys) → keys kid = none) ∧
      FailedWithin jwksRetryS now log

/-- While no fetch is needed, the key in hand is young, or the set that lacks it is. -/
theorem Mirrors.justified_orInvalid (h : Mirrors log now cache) {kid : Option String}
    (hfresh : cache.needsFetch kid now = false) :
    Justified log kid now (.orInvalid (cache.lookup kid) kid) := by
  rw [Jwks.needsFetch, Bool.or_eq_false_iff] at hfresh
  have hlookup := h.lookup_eq kid
  cases hkey : cache.lookup kid with
  | some key =>
      obtain ⟨t, keys, hgood, hwithin⟩ := h.good_within hfresh.1
      rw [hkey, hgood] at hlookup
      exact ⟨t, keys, hgood, hlookup.symm, Or.inl hwithin⟩
  | none =>
      have hyoung : elapsed cache.fetchedAt now jwksMinRefreshS = false := by
        simpa [hkey] using hfresh.2
      obtain ⟨t, keys, hgood, hwithin⟩ := h.good_within hyoung
      rw [hkey, hgood] at hlookup
      exact ⟨rfl, t, keys, hgood, hlookup.symm, hwithin⟩

/-- After a failure the key in hand is the last good one, or there is none. -/
theorem Mirrors.justified_orUnavailable (h : Mirrors log now cache) (kid : Option String)
    (reason : String) (hfailed : FailedWithin jwksRetryS now log) :
    Justified log kid now (.orUnavailable (cache.lookup kid) reason) := by
  have hlookup := h.lookup_eq kid
  cases hgood : lastGood log with
  | none =>
      rw [hgood] at hlookup
      rw [hlookup]
      exact ⟨by simp [hgood], hfailed⟩
  | some good =>
      obtain ⟨t, keys⟩ := good
      rw [hgood] at hlookup
      cases hkey : cache.lookup kid with
      | some key => exact ⟨t, keys, hgood, hlookup.symm.trans hkey, Or.inr hfailed⟩
      | none =>
          refine ⟨fun t' keys' hgood' => ?_, hfailed⟩
          rw [hgood, Option.some.injEq, Prod.mk.injEq] at hgood'
          rw [← hgood'.2]
          exact hlookup.symm.trans hkey

/-- **One call.** From a cache that mirrors the log, a call leaves a cache that
mirrors the log with its own fetch, and that log justifies its answer. -/
theorem Mirrors.keyFor {call : Call Key} (h : Mirrors log call.tested cache)
    (horderly : call.Orderly) :
    Mirrors (log ++ (keyFor cache call).1.fetch.toList) call.settled (keyFor cache call).2 ∧
      Justified (log ++ (keyFor cache call).1.fetch.toList) call.kid
        (keyFor cache call).1.time (keyFor cache call).1.answer := by
  have hchecked := h.mono horderly.checked
  have hretested := hchecked.mono horderly.retested
  have hsettled := hretested.mono horderly.settled
  simp only [Auth.keyFor, Bool.not_eq_true']
  split_ifs with hfresh hbackoff hstale
  · rw [Option.toList_none, List.append_nil]
    exact ⟨hsettled, h.justified_orInvalid hfresh⟩
  · rw [Option.toList_none, List.append_nil]
    exact ⟨hsettled,
      hchecked.justified_orUnavailable call.kid _ (hchecked.failedWithin hbackoff)⟩
  · have hfetch := hsettled.fetch call.outcome
    cases houtcome : call.outcome with
    | error exc =>
        rw [houtcome] at hfetch
        refine ⟨hfetch, ?_⟩
        have hnow : FailedWithin jwksRetryS call.settled
            (log ++ [(⟨call.settled, .error exc⟩ : Fetch Key)]) :=
          ⟨⟨call.settled, .error exc⟩, by simp, call.settled, rfl, le_rfl,
            by rw [sub_self]; decide +kernel⟩
        exact hfetch.justified_orUnavailable call.kid exc hnow
    | ok keys =>
        rw [houtcome] at hfetch
        refine ⟨hfetch, hfetch.justified_orInvalid ?_⟩
        have hnew : ∀ duration : ℚ, 0 < duration →
            elapsed (some call.settled) call.settled duration = false := by
          intro duration hpos
          simpa [elapsed] using hpos
        simp only [Jwks.needsFetch, Jwks.fetch, Bool.or_eq_false_iff, Bool.and_eq_false_iff]
        exact ⟨hnew _ (by decide +kernel), Or.inr (hnew _ (by decide +kernel))⟩
  · rw [Option.toList_none, List.append_nil]
    exact ⟨hsettled, hretested.justified_orInvalid (by simpa using hstale)⟩

theorem Sequential.left {first second : List (Call Key)} (h : Sequential (first ++ second)) :
    Sequential first :=
  ⟨fun call hcall => h.orderly call (List.mem_append_left _ hcall),
    (List.pairwise_append.1 h.disjoint).1⟩

theorem Sequential.settled_le {past : List (Call Key)} {call : Call Key}
    (h : Sequential (past ++ [call])) : ∀ earlier ∈ past, earlier.settled ≤ call.tested :=
  fun earlier hmem => (List.pairwise_append.1 h.disjoint).2.2 earlier hmem call (by simp)

/-- After a run of calls the cache mirrors the log of their fetches. -/
theorem run_mirrors (calls : List (Call Key)) (hcalls : Sequential calls) {now : ℚ}
    (hnow : ∀ call ∈ calls, call.settled ≤ now) :
    Mirrors (fetches Jwks.init calls) now (machine.run Jwks.init calls) := by
  induction calls using List.reverseRecOn generalizing now with
  | nil => exact Mirrors.init
  | append_singleton past call ih =>
      have hpast := ih hcalls.left hcalls.settled_le
      have hstep := (hpast.keyFor (hcalls.orderly call (by simp))).1
      rw [fetches, Machine.observe_concat, Machine.run_concat]
      exact hstep.mono (hnow call (by simp))

/-- **Soundness of the sequential cache.** In any run of calls that do not
overlap, the log of the fetches justifies every answer: a key is from the last
good set, which is young or a fetch failed recently; a 401 is given only when the
last good set lacks the kid and is very young; a 503 only when the last good set,
if any, lacks the kid and a fetch failed recently. -/
theorem keyFor_justified (past : List (Call Key)) (call : Call Key)
    (hcalls : Sequential (past ++ [call])) :
    Justified (fetches Jwks.init (past ++ [call])) call.kid
      (machine.answerAfter Jwks.init past call).time
      (machine.answerAfter Jwks.init past call).answer := by
  have hpast := run_mirrors past hcalls.left hcalls.settled_le
  rw [fetches, Machine.observe_concat]
  exact (hpast.keyFor (hcalls.orderly call (by simp))).2

/-- A call that fills the cache. -/
def fillCall : Call ℕ :=
  ⟨some "a", 0, 0, 0, 1, .ok fun kid => if kid = some "a" then some 7 else none⟩

/-- A call that finds the set expired and the endpoint down. -/
def outageCall : Call ℕ := ⟨some "a", 700, 700, 700, 703, .error "timed out"⟩

theorem keyFor_justified_outage :
    Justified (fetches Jwks.init ([fillCall] ++ [outageCall])) (some "a")
      (machine.answerAfter Jwks.init [fillCall] outageCall).time
      (machine.answerAfter Jwks.init [fillCall] outageCall).answer :=
  keyFor_justified [fillCall] outageCall
    { orderly := by
        intro call hcall
        rcases List.mem_cons.1 hcall with rfl | hcall
        · exact ⟨by decide +kernel, by decide +kernel, by decide +kernel⟩
        · obtain rfl := List.mem_singleton.1 hcall
          exact ⟨by decide +kernel, by decide +kernel, by decide +kernel⟩
      disjoint := List.pairwise_pair.2 (by decide +kernel) }

example : (machine.answerAfter Jwks.init [fillCall] outageCall).answer = .key 7 := by
  decide +kernel

end DealFinder.Auth
