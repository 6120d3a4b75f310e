/-
# What one check does

`checkWindow` cleans a table at most once, asks the window, and answers. This
module says so once (`checkWindow_inversion`) and derives from it what a check
does to the client that asks (`checkWindow_own`), to a client that does not
(`checkWindow_other`), and to the table as a whole.

`cleanupTable` is the table a check's cleanup scans, when it runs one. It is a
function of the state before the check, so conditions on cleanups are conditions
on the states a run passes through.
-/

import DealFinder.Limits.Table

namespace DealFinder.Limits

open DealFinder.Math SlidingWindowRateLimiter

variable {maxKeys : ℕ} {lastShrink : Option ℚ} {w : SlidingWindowRateLimiter}
variable {key other : String} {now : ℚ}

/-- An untracked client meets a table that is full even after a due cleanup. -/
def AtCeiling (maxKeys : ℕ) (lastShrink : Option ℚ) (w : SlidingWindowRateLimiter)
    (key : String) (now : ℚ) : Prop :=
  key ∉ w.events ∧ 2 * maxKeys ≤ (maybeShrink maxKeys lastShrink w now).2.events.size

instance : Decidable (AtCeiling maxKeys lastShrink w key now) :=
  inferInstanceAs (Decidable (_ ∧ _))

/-- The table scanned by the cleanup of this check, when it runs one. -/
def cleanupTable (maxKeys : ℕ) (lastShrink : Option ℚ) (w : SlidingWindowRateLimiter)
    (key : String) (now : ℚ) : Option SlidingWindowRateLimiter :=
  if shrinkDue lastShrink now then
    if key ∉ w.events ∧ 2 * maxKeys ≤ w.events.size then some w
    else if maxKeys < (w.allow key now).2.events.size then some (w.allow key now).2
    else none
  else none

/-- `second` is `first`, possibly cleaned, and then `first` is the table scanned. -/
def CleanedBy (maxKeys : ℕ) (now : ℚ) (scanned : Option SlidingWindowRateLimiter)
    (first second : SlidingWindowRateLimiter) : Prop :=
  second = first ∨ second = first.shrink maxKeys now ∧ scanned = some first

/-- The answer of `Limiter.check` read off the table it leaves. -/
def answerOf (allowed : Bool) (w : SlidingWindowRateLimiter) (key : String) (now : ℚ) : Answer :=
  if allowed then .ok none
  else
    match w.events.getD key [] with
    | oldest :: _ => .ok (some (oldest + w.window - now))
    | [] => .error .indexError

theorem maybeShrink_window : (maybeShrink maxKeys lastShrink w now).2.window = w.window := by
  unfold maybeShrink
  split_ifs
  · exact shrink_window w maxKeys now
  · rfl

theorem maybeShrink_size_le :
    (maybeShrink maxKeys lastShrink w now).2.events.size ≤ w.events.size := by
  unfold maybeShrink
  split_ifs
  · exact shrink_size_le w maxKeys now
  · exact le_rfl

theorem shrinkDue_self (now : ℚ) : shrinkDue (some now) now = false := by
  simp [shrinkDue, shrinkEveryS]

/-- Asking a window answers from the table it leaves, which is the asked table,
cleaned when it grew past `max_keys` and a cleanup is due. -/
theorem askWindow_eq :
    askWindow maxKeys lastShrink w key now =
      (let asked := w.allow key now
       let cleaned :=
         if maxKeys < asked.2.events.size then maybeShrink maxKeys lastShrink asked.2 now
         else (lastShrink, asked.2)
       (answerOf asked.1 cleaned.2 key now, cleaned)) := by
  have hwindow : ∀ cleaned : Option ℚ × SlidingWindowRateLimiter,
      cleaned = (if maxKeys < (w.allow key now).2.events.size
        then maybeShrink maxKeys lastShrink (w.allow key now).2 now
        else (lastShrink, (w.allow key now).2)) → cleaned.2.window = w.window := by
    rintro cleaned rfl
    split_ifs
    · rw [maybeShrink_window, allow_window]
    · exact allow_window w key now
  simp only [askWindow, answerOf]
  split_ifs with hallowed hgrown hgrown
  · rfl
  · rfl
  · have heq := hwindow _ (if_pos hgrown).symm
    rw [heq]
    cases (maybeShrink maxKeys lastShrink (w.allow key now).2 now).2.events.getD key [] <;> rfl
  · have heq := allow_window w key now
    simp only [heq]
    cases (w.allow key now).2.events.getD key [] <;> rfl

theorem cleanedBy_askWindow (hask : ¬ (key ∉ w.events ∧ 2 * maxKeys ≤ w.events.size)) :
    CleanedBy maxKeys now (cleanupTable maxKeys lastShrink w key now) (w.allow key now).2
      (askWindow maxKeys lastShrink w key now).2.2 := by
  simp only [askWindow_eq]
  by_cases hgrown : maxKeys < (w.allow key now).2.events.size
  · rw [if_pos hgrown]
    by_cases hdue : shrinkDue lastShrink now
    · right
      simp only [maybeShrink, if_pos hdue, cleanupTable, if_neg hask, if_pos hgrown, and_self]
    · left
      simp [maybeShrink, hdue]
  · rw [if_neg hgrown]
    exact Or.inl rfl

/-- **The step inversion.** A check at the ceiling refuses and leaves the cleaned
table. Any other check asks the table (cleaned first if it was full and the
client untracked) and cleans what that leaves; it runs at most one cleanup. -/
theorem checkWindow_inversion (maxKeys : ℕ) (lastShrink : Option ℚ)
    (w : SlidingWindowRateLimiter) (key : String) (now : ℚ) :
    (AtCeiling maxKeys lastShrink w key now ∧
      (checkWindow maxKeys lastShrink w key now).1 = .ok (some w.window) ∧
      CleanedBy maxKeys now (cleanupTable maxKeys lastShrink w key now) w
        (checkWindow maxKeys lastShrink w key now).2.2) ∨
    (¬ AtCeiling maxKeys lastShrink w key now ∧
      ∃ before, CleanedBy maxKeys now (cleanupTable maxKeys lastShrink w key now) w before ∧
        (key ∈ w.events → before = w) ∧
        (key ∈ before.events ∨ before.events.size < 2 * maxKeys) ∧
        CleanedBy maxKeys now (cleanupTable maxKeys lastShrink w key now)
          (before.allow key now).2 (checkWindow maxKeys lastShrink w key now).2.2 ∧
        (checkWindow maxKeys lastShrink w key now).1 =
          answerOf (before.allow key now).1 (checkWindow maxKeys lastShrink w key now).2.2
            key now) := by
  by_cases hfull : key ∉ w.events ∧ 2 * maxKeys ≤ w.events.size
  · have hcleaned : CleanedBy maxKeys now (cleanupTable maxKeys lastShrink w key now) w
        (maybeShrink maxKeys lastShrink w now).2 := by
      by_cases hdue : shrinkDue lastShrink now
      · right
        simp only [maybeShrink, if_pos hdue, cleanupTable, if_pos hfull, and_self]
      · left
        simp [maybeShrink, hdue]
    by_cases hstill : 2 * maxKeys ≤ (maybeShrink maxKeys lastShrink w now).2.events.size
    · left
      refine ⟨⟨hfull.1, hstill⟩, ?_, ?_⟩
      · simp only [checkWindow, if_pos hfull, if_pos hstill]
      · simpa only [checkWindow, if_pos hfull, if_pos hstill] using hcleaned
    · right
      refine ⟨fun h => hstill h.2, _, hcleaned, fun hmem => absurd hmem hfull.1,
        Or.inr (not_le.1 hstill), ?_, ?_⟩
      · -- The cleanup before asking was due, so a second one in this check is not.
        have hdue : shrinkDue lastShrink now = true := by
          by_contra hdue
          exact hstill (by simpa [maybeShrink, hdue] using hfull.2)
        left
        simp only [checkWindow, if_pos hfull, if_neg hstill, askWindow_eq]
        split_ifs
        · simp [maybeShrink, hdue, shrinkDue_self]
        · rfl
      · simp only [checkWindow, if_pos hfull, if_neg hstill, askWindow_eq]
  · right
    refine ⟨fun h => hfull ⟨h.1, h.2.trans maybeShrink_size_le⟩, w, Or.inl rfl, fun _ => rfl, ?_,
      ?_, ?_⟩
    · by_contra hboth
      exact hfull ⟨fun hmem => hboth (Or.inl hmem), not_lt.1 fun h => hboth (Or.inr h)⟩
    · simpa only [checkWindow, if_neg hfull] using cleanedBy_askWindow hfull
    · simp only [checkWindow, if_neg hfull, askWindow_eq]

/-! ## Cleaning, seen from one client -/

section CleanedBy

variable {scanned : Option SlidingWindowRateLimiter} {first second : SlidingWindowRateLimiter}

theorem CleanedBy.limit (h : CleanedBy maxKeys now scanned first second) :
    second.limit = first.limit := by
  rcases h with rfl | ⟨rfl, -⟩
  · rfl
  · exact shrink_limit first maxKeys now

theorem CleanedBy.window (h : CleanedBy maxKeys now scanned first second) :
    second.window = first.window := by
  rcases h with rfl | ⟨rfl, -⟩
  · rfl
  · exact shrink_window first maxKeys now

theorem CleanedBy.valid (h : CleanedBy maxKeys now scanned first second)
    (hvalid : first.Valid now) : second.Valid now := by
  rcases h with rfl | ⟨rfl, -⟩
  · exact hvalid
  · exact shrink_valid hvalid

theorem CleanedBy.size_le (h : CleanedBy maxKeys now scanned first second) :
    second.events.size ≤ first.events.size := by
  rcases h with rfl | ⟨rfl, -⟩
  · exact le_rfl
  · exact shrink_size_le first maxKeys now

theorem CleanedBy.not_mem (h : CleanedBy maxKeys now scanned first second)
    (hmem : key ∉ first.events) : key ∉ second.events := by
  rcases h with rfl | ⟨rfl, -⟩
  · exact hmem
  · exact fun hin => hmem (shrink_mem hin)

/-- A cleanup keeps a client's queue or forgets the client, and forgets it only
if its queue is idle or the cleanup evicts it. -/
theorem CleanedBy.get? (h : CleanedBy maxKeys now scanned first second) {ev : List ℚ}
    (hget : first.events.get? key = some ev) :
    second.events.get? key = some ev ∨
      (second.events.get? key = none ∧
        (first.idle now ev = true ∨ ∃ table, scanned = some table ∧ table = first ∧
          Evicts maxKeys table now key)) := by
  rcases h with rfl | ⟨rfl, hscanned⟩
  · exact Or.inl hget
  · by_cases hidle : first.idle now ev = true
    · refine Or.inr ⟨?_, Or.inl hidle⟩
      rw [Option.eq_none_iff_forall_ne_some]
      intro ev' hev'
      obtain ⟨hev, hlive, -⟩ := shrink_get?_eq_some_iff.1 hev'
      rw [hget, Option.some.injEq] at hev
      subst hev
      simp [hidle] at hlive
    · by_cases hevicts : Evicts maxKeys first now key
      · refine Or.inr ⟨?_, Or.inr ⟨first, hscanned, rfl, hevicts⟩⟩
        rw [Option.eq_none_iff_forall_ne_some]
        exact fun ev' hev' => (shrink_get?_eq_some_iff.1 hev').2.2 hevicts
      · exact Or.inl (shrink_get?_eq_some_iff.2 ⟨hget, by simpa using hidle, hevicts⟩)

end CleanedBy

/-! ## The client that asks, and every other client -/

/-- At the ceiling the client is refused for one window and stays untracked. -/
theorem checkWindow_of_atCeiling (h : AtCeiling maxKeys lastShrink w key now) :
    (checkWindow maxKeys lastShrink w key now).1 = .ok (some w.window) ∧
      key ∉ (checkWindow maxKeys lastShrink w key now).2.2.events := by
  rcases checkWindow_inversion maxKeys lastShrink w key now with
    ⟨-, hanswer, hcleaned⟩ | ⟨hnot, -⟩
  · exact ⟨hanswer, hcleaned.not_mem h.1⟩
  · exact absurd h hnot

/-- Below the ceiling and with room in its window, the client is admitted, and
afterwards its queue is the live part with `now` appended, unless the check's
own cleanup evicts it. -/
theorem checkWindow_of_room (hvalid : w.Valid now) (hwindow : 0 < w.window)
    (hceiling : ¬ AtCeiling maxKeys lastShrink w key now)
    (hroom : (live w.window now (w.queue key)).length < w.limit) :
    (checkWindow maxKeys lastShrink w key now).1 = .ok none ∧
      ((checkWindow maxKeys lastShrink w key now).2.2.events.get? key =
          some (live w.window now (w.queue key) ++ [now]) ∨
        ((checkWindow maxKeys lastShrink w key now).2.2.events.get? key = none ∧
          ∃ table, cleanupTable maxKeys lastShrink w key now = some table ∧
            Evicts maxKeys table now key)) := by
  rcases checkWindow_inversion maxKeys lastShrink w key now with
    ⟨hat, -⟩ | ⟨-, before, hbefore, hsame, -, hafter, hanswer⟩
  · exact absurd hat hceiling
  have hqueue : before.queue key = w.queue key := by
    by_cases hmem : key ∈ w.events
    · rw [hsame hmem]
    · rw [queue_of_not_mem hmem, queue_of_not_mem (hbefore.not_mem hmem)]
  have hbeforeValid := hbefore.valid hvalid
  have hallowed : (before.allow key now).1 = true := by
    rw [allow_fst hbeforeValid, hqueue, hbefore.window, hbefore.limit, decide_eq_true hroom]
  have hget := allow_get?_self hbeforeValid key now
  rw [hallowed, hqueue, hbefore.window] at hget
  refine ⟨by rw [hanswer, hallowed]; rfl, ?_⟩
  rcases hafter.get? hget with hkept | ⟨hgone, hidle | ⟨table, htable, -, hevicts⟩⟩
  · exact Or.inl hkept
  · -- The request just recorded is live, so the queue is not idle.
    have hsorted := (allow_valid hbeforeValid key key _ hget).sorted
    have hrecent : now - (before.allow key now).2.window < now := by
      rw [allow_window, hbefore.window]
      exact sub_lt_self now hwindow
    rw [not_idle_of_mem hsorted (by simp) hrecent] at hidle
    cases hidle
  · exact Or.inr ⟨hgone, table, htable, hevicts⟩

/-- Below the ceiling and with a full window, the client is told to wait until
its oldest live request expires, and its queue is then that live part. -/
theorem checkWindow_of_full (hvalid : w.Valid now)
    (hceiling : ¬ AtCeiling maxKeys lastShrink w key now)
    (hfull : w.limit ≤ (live w.window now (w.queue key)).length) :
    ∃ oldest rest, live w.window now (w.queue key) = oldest :: rest ∧
      (checkWindow maxKeys lastShrink w key now).1 = .ok (some (oldest + w.window - now)) ∧
      (checkWindow maxKeys lastShrink w key now).2.2.events.get? key = some (oldest :: rest) := by
  rcases checkWindow_inversion maxKeys lastShrink w key now with
    ⟨hat, -⟩ | ⟨-, before, hbefore, hsame, -, hafter, hanswer⟩
  · exact absurd hat hceiling
  have hlimit := w.limit_pos
  obtain ⟨oldest, rest, hlive⟩ := List.exists_cons_of_length_pos
    (show 0 < (live w.window now (w.queue key)).length by omega)
  -- A full window belongs to a tracked client, so nothing was cleaned before asking.
  have hmem : key ∈ w.events := by
    by_contra hmem
    rw [queue_of_not_mem hmem] at hlive
    simp at hlive
  obtain rfl := hsame hmem
  have hallowed : (before.allow key now).1 = false := by
    rw [allow_fst hvalid, decide_eq_false (not_lt.2 hfull)]
  have hget := allow_get?_self hvalid key now
  rw [hallowed, hlive] at hget
  simp only [Bool.false_eq_true, if_false, List.append_nil] at hget
  refine ⟨oldest, rest, hlive, ?_⟩
  have hkept : (checkWindow maxKeys lastShrink before key now).2.2.events.get? key =
      some (oldest :: rest) := by
    rcases hafter.get? hget with hkept | ⟨-, hidle | ⟨table, -, rfl, hevicts⟩⟩
    · exact hkept
    · have hoq : oldest ∈ live before.window now (before.queue key) := by simp [hlive]
      have hsorted := (allow_valid hvalid key key _ hget).sorted
      have hrecent : now - (before.allow key now).2.window < oldest := by
        rw [allow_window]
        exact (mem_live.1 hoq).2
      rw [not_idle_of_mem hsorted (by simp) hrecent] at hidle
      cases hidle
    · -- A client at its limit is not below it, so no cleanup evicts it.
      obtain ⟨ev, last, hev, -, -, hlength, -⟩ := hevicts
      rw [hget, Option.some.injEq] at hev
      rw [← hev, allow_limit, ← hlive] at hlength
      omega
  refine ⟨?_, hkept⟩
  rw [hanswer, hallowed, answerOf, Dict.getD, hkept, hafter.window, allow_window]
  rfl

/-- A check leaves the queue of any other client alone, or forgets that client
because its queue is idle or the check's cleanup evicts it. -/
theorem checkWindow_other (hne : other ≠ key) {ev : List ℚ}
    (hget : w.events.get? other = some ev) :
    (checkWindow maxKeys lastShrink w key now).2.2.events.get? other = some ev ∨
      ((checkWindow maxKeys lastShrink w key now).2.2.events.get? other = none ∧
        (w.idle now ev = true ∨ ∃ table, cleanupTable maxKeys lastShrink w key now = some table ∧
          Evicts maxKeys table now other)) := by
  have hidleEq : ∀ v : SlidingWindowRateLimiter, v.window = w.window →
      v.idle now ev = w.idle now ev := fun v hv => by simp only [idle, hv]
  rcases checkWindow_inversion maxKeys lastShrink w key now with
    ⟨-, -, hcleaned⟩ | ⟨-, before, hbefore, -, -, hafter, -⟩
  · rcases hcleaned.get? hget with hkept | ⟨hgone, hidle | ⟨table, htable, -, hevicts⟩⟩
    · exact Or.inl hkept
    · exact Or.inr ⟨hgone, Or.inl hidle⟩
    · exact Or.inr ⟨hgone, Or.inr ⟨table, htable, hevicts⟩⟩
  · have hgoneAfter : before.events.get? other = none →
        (checkWindow maxKeys lastShrink w key now).2.2.events.get? other = none := fun hgone =>
      Dict.get?_eq_none_iff.2 (hafter.not_mem (by
        rw [← Dict.get?_eq_none_iff, allow_get?_of_ne before now hne]
        exact hgone))
    rcases hbefore.get? hget with hkept | ⟨hgone, hidle | ⟨table, htable, -, hevicts⟩⟩
    · have hasked := (allow_get?_of_ne before now hne).trans hkept
      rcases hafter.get? hasked with hkept' | ⟨hgone, hidle | ⟨table, htable, -, hevicts⟩⟩
      · exact Or.inl hkept'
      · refine Or.inr ⟨hgone, Or.inl ?_⟩
        rwa [hidleEq _ ((allow_window before key now).trans hbefore.window)] at hidle
      · exact Or.inr ⟨hgone, Or.inr ⟨table, htable, hevicts⟩⟩
    · exact Or.inr ⟨hgoneAfter hgone, Or.inl hidle⟩
    · exact Or.inr ⟨hgoneAfter hgone, Or.inr ⟨table, htable, hevicts⟩⟩

/-- A check never starts to track a client other than the one that asks. -/
theorem checkWindow_other_none (hne : other ≠ key) (hmem : other ∉ w.events) :
    other ∉ (checkWindow maxKeys lastShrink w key now).2.2.events := by
  rcases checkWindow_inversion maxKeys lastShrink w key now with
    ⟨-, -, hcleaned⟩ | ⟨-, before, hbefore, -, -, hafter, -⟩
  · exact hcleaned.not_mem hmem
  · apply hafter.not_mem
    rw [← Dict.get?_eq_none_iff, allow_get?_of_ne before now hne, Dict.get?_eq_none_iff]
    exact hbefore.not_mem hmem

/-! ## The table as a whole -/

theorem checkWindow_limit :
    (checkWindow maxKeys lastShrink w key now).2.2.limit = w.limit := by
  rcases checkWindow_inversion maxKeys lastShrink w key now with
    ⟨-, -, hcleaned⟩ | ⟨-, before, hbefore, -, -, hafter, -⟩
  · exact hcleaned.limit
  · rw [hafter.limit, allow_limit, hbefore.limit]

theorem checkWindow_window :
    (checkWindow maxKeys lastShrink w key now).2.2.window = w.window := by
  rcases checkWindow_inversion maxKeys lastShrink w key now with
    ⟨-, -, hcleaned⟩ | ⟨-, before, hbefore, -, -, hafter, -⟩
  · exact hcleaned.window
  · rw [hafter.window, allow_window, hbefore.window]

theorem checkWindow_valid (hvalid : w.Valid now) :
    (checkWindow maxKeys lastShrink w key now).2.2.Valid now := by
  rcases checkWindow_inversion maxKeys lastShrink w key now with
    ⟨-, -, hcleaned⟩ | ⟨-, before, hbefore, -, -, hafter, -⟩
  · exact hcleaned.valid hvalid
  · exact hafter.valid (allow_valid (hbefore.valid hvalid) key)

/-- The ceiling: a table never grows past `2 * max_keys` clients. -/
theorem checkWindow_size_le (hsize : w.events.size ≤ 2 * maxKeys) :
    (checkWindow maxKeys lastShrink w key now).2.2.events.size ≤ 2 * maxKeys := by
  rcases checkWindow_inversion maxKeys lastShrink w key now with
    ⟨-, -, hcleaned⟩ | ⟨-, before, hbefore, -, hroom, hafter, -⟩
  · exact hcleaned.size_le.trans hsize
  · have hasked : (before.allow key now).2.events.size ≤ 2 * maxKeys := by
      by_cases hmem : key ∈ before.events
      · rw [allow_size_of_mem now hmem]
        exact hbefore.size_le.trans hsize
      · rw [allow_size_of_not_mem now hmem]
        exact hroom.resolve_left hmem
    exact hafter.size_le.trans hasked

end DealFinder.Limits
