/-
# How often the keys are fetched

The journal of a run lists when a fetch started, failed or succeeded. A fetch is
started under the lock by a thread whose second test found a fetch needed, so
the last success is at least `_JWKS_MIN_REFRESH_S` old, in every schedule.

Nothing under the lock looks at the last failure. A thread that passed the
backoff test and then waited for the lock sends its own request right after the
holder's has failed. `HeedsBackoff` says of a step that it does not do this.
-/

import DealFinder.Auth.Threads

namespace DealFinder.Auth.Threads

open DealFinder.Math

universe u v

variable {Key : Type u} {τ : Type v}

/-- The life of a fetch, as the network sees it. -/
inductive Net
  | started
  | failed
  | succeeded
  deriving DecidableEq

/-- What a step does on the network. -/
def Signal.net : Signal Key → Option Net
  | .fetchStarted => some .started
  | .fetchFailed => some .failed
  | .fetchSucceeded => some .succeeded
  | _ => none

/-- No fetch starts within `duration` after this kind of event. -/
def Spaced (kind : Net) (duration : ℚ) (earlier later : ℚ × Net) : Prop :=
  earlier.2 = kind → later.2 = .started → earlier.1 + duration ≤ later.1

instance (kind : Net) (duration : ℚ) (earlier later : ℚ × Net) :
    Decidable (Spaced kind duration earlier later) :=
  inferInstanceAs (Decidable (_ → _))

/-- The time a good fetch ended, until it is entered in the cache. -/
def Pc.pending : Pc Key → Option ℚ
  | .received _ _ time => some time
  | .stamping _ time => some time
  | _ => none

/-! ## What a step does on the network -/

section Taken

variable {cache : Jwks Key} {lock : Option τ} {thread : τ} {now : ℚ}
variable {action : Action Key} {pc : Pc Key} {t : Turn Key τ}

theorem Pc.inside_of_pending {time : ℚ} (h : pc.pending = some time) : pc.inside = true := by
  cases pc with
  | received kid keys time => rfl
  | stamping kid time => rfl
  | _ => cases h

/-- A failure is entered in the cache when the world sees it. -/
theorem Taken.failedAt_cases (h : Taken cache lock thread now action pc t) :
    (t.cache.failedAt = cache.failedAt ∧ t.signal.net ≠ some .failed) ∨
      (t.cache.failedAt = some now ∧ pc.inside = true ∧ t.signal.net = some .failed) := by
  cases h with
  | setFailedAt kid read exc => exact Or.inr ⟨rfl, rfl, rfl⟩
  | _ => exact Or.inl ⟨rfl, by simp [Signal.net]⟩

/-- A success is pending when the world sees it, and is entered in the cache later. -/
theorem Taken.fetchedAt_cases (h : Taken cache lock thread now action pc t) :
    (t.cache.fetchedAt = cache.fetchedAt ∧ t.pc.pending = pc.pending ∧
        t.signal.net ≠ some .succeeded) ∨
      (t.cache.fetchedAt = cache.fetchedAt ∧ t.pc.pending = some now ∧ pc.inside = true ∧
        t.signal.net = some .succeeded) ∨
      (∃ time, pc.pending = some time ∧ t.cache.fetchedAt = some time ∧ t.pc.pending = none ∧
        t.signal.net ≠ some .succeeded) := by
  cases h with
  | replyOk kid read keys => exact Or.inr (Or.inl ⟨rfl, rfl, rfl, rfl⟩)
  | setFetchedAt kid time =>
      exact Or.inr (Or.inr ⟨time, rfl, rfl, rfl, by simp [Signal.net]⟩)
  | _ => exact Or.inl ⟨rfl, rfl, by simp [Signal.net]⟩

/-- A thread is about to send only after its test under the lock. -/
theorem Taken.sending (h : Taken cache lock thread now action pc t) {kid : Option String}
    {read : Option (KeySet Key)} (hsending : t.pc = .sending kid read) :
    pc = .locked kid read ∧ action = .next ∧ cache.needsFetch kid now = true ∧
      t.signal.net = none := by
  cases h with
  | refetch kid' read' hneeds =>
      cases hsending
      exact ⟨rfl, rfl, hneeds, rfl⟩
  | _ => cases hsending

/-- A fetch is started by a thread that was about to send. -/
theorem Taken.started (h : Taken cache lock thread now action pc t)
    (hstarted : t.signal.net = some .started) : ∃ kid read, pc = .sending kid read := by
  cases h with
  | send kid read => exact ⟨kid, read, rfl⟩
  | _ => cases hstarted

end Taken

/-- A fetch is needed only when the last one is old enough. -/
theorem needsFetch_elapsed {cache : Jwks Key} {kid : Option String} {now last : ℚ}
    (hneeds : cache.needsFetch kid now = true) (hlast : cache.fetchedAt = some last) :
    last + jwksMinRefreshS ≤ now := by
  have hmono : jwksMinRefreshS ≤ jwksTtlS := by decide +kernel
  rw [← le_sub_iff_add_le']
  simp only [Jwks.needsFetch, hlast, elapsed, Bool.or_eq_true, Bool.and_eq_true,
    decide_eq_true_eq] at hneeds
  cases hneeds with
  | inl hold => exact hmono.trans hold
  | inr hunknown => exact hunknown.2

/-! ## The journal -/

/-- What the world saw up to `now`, and how the state accounts for it. -/
structure Journal (log : List (ℚ × Net)) (now : ℚ) (s : State Key τ) : Prop where
  exclusive : Exclusive s
  past : ∀ entry ∈ log, entry.1 ≤ now
  failures : ∀ t, (t, Net.failed) ∈ log → ∃ last, s.cache.failedAt = some last ∧ t ≤ last
  successes : ∀ t, (t, Net.succeeded) ∈ log →
    (∃ last, s.cache.fetchedAt = some last ∧ t ≤ last) ∨
      ∃ thread last, (s.pc thread).pending = some last ∧ t ≤ last
  pending : ∀ thread last, (s.pc thread).pending = some last →
    ∀ t, (t, Net.succeeded) ∈ log → t ≤ last
  rested : ∀ thread kid read, s.pc thread = .sending kid read →
    ∀ t, (t, Net.succeeded) ∈ log → t + jwksMinRefreshS ≤ now
  spaced : log.Pairwise (Spaced .succeeded jwksMinRefreshS)

theorem Journal.init {now : ℚ} : Journal [] now (init : State Key τ) where
  exclusive := exclusive_init
  past := by simp
  failures := by simp
  successes := by simp
  pending := by simp
  rested := by simp
  spaced := List.Pairwise.nil

theorem Journal.mono {log : List (ℚ × Net)} {now later : ℚ} {s : State Key τ}
    (h : Journal log now s) (hle : now ≤ later) : Journal log later s :=
  { h with
    past := fun entry hentry => (h.past entry hentry).trans hle
    rested := fun thread kid read hpc t ht => (h.rested thread kid read hpc t ht).trans hle }

/-- Failures that no thread about to send, and no fetch so far, came too close to. -/
structure Cooled (log : List (ℚ × Net)) (now : ℚ) (s : State Key τ) : Prop where
  cooled : ∀ thread kid read, s.pc thread = .sending kid read →
    ∀ t, (t, Net.failed) ∈ log → t + jwksRetryS ≤ now
  spaced : log.Pairwise (Spaced .failed jwksRetryS)

theorem Cooled.mono {log : List (ℚ × Net)} {s : State Key τ} {now later : ℚ}
    (h : Cooled log now s) (hle : now ≤ later) : Cooled log later s :=
  { h with cooled := fun thread kid read hpc t ht => (h.cooled thread kid read hpc t ht).trans hle }

/-- What a step enters in the journal. -/
def entry (e : Event Key τ) (signal : Signal Key) : Option (ℚ × Net) :=
  signal.net.map fun net => (e.time, net)

theorem mem_entry {e : Event Key τ} {signal : Signal Key} {x : ℚ} {net : Net} :
    (x, net) ∈ (entry e signal).toList ↔ x = e.time ∧ signal.net = some net := by
  rw [Option.mem_toList, entry, Option.map_eq_some_iff]
  constructor
  · rintro ⟨seen, hseen, heq⟩
    obtain ⟨rfl, rfl⟩ := Prod.ext_iff.1 heq
    exact ⟨rfl, hseen⟩
  · rintro ⟨rfl, hseen⟩
    exact ⟨net, hseen, rfl⟩

theorem mem_journal {log : List (ℚ × Net)} {e : Event Key τ} {signal : Signal Key} {x : ℚ}
    {net : Net} :
    (x, net) ∈ log ++ (entry e signal).toList ↔
      (x, net) ∈ log ∨ x = e.time ∧ signal.net = some net := by
  rw [List.mem_append, mem_entry]

/-- A step starts no fetch too early when a thread about to send has waited. -/
theorem spaced_step {log : List (ℚ × Net)} {s : State Key τ} {e : Event Key τ} {t : Turn Key τ}
    {kind : Net} {gap : ℚ} (hspaced : log.Pairwise (Spaced kind gap))
    (htaken : Taken s.cache s.lock e.thread e.time e.action (s.pc e.thread) t)
    (hwaited : ∀ kid read, s.pc e.thread = .sending kid read →
      ∀ x, (x, kind) ∈ log → x + gap ≤ e.time) :
    (log ++ (entry e t.signal).toList).Pairwise (Spaced kind gap) := by
  refine List.pairwise_append.2 ⟨hspaced, ?_, ?_⟩
  · cases entry e t.signal <;> simp
  · intro earlier hearlier later hlater hkind hstarted
    obtain ⟨x, net⟩ := earlier
    obtain ⟨y, next⟩ := later
    subst hkind hstarted
    obtain ⟨rfl, hnet⟩ := mem_entry.1 hlater
    obtain ⟨kid, read, hsending⟩ := htaken.started hnet
    exact hwaited kid read hsending x hearlier

variable [DecidableEq τ]

section Step

variable {log : List (ℚ × Net)} {s : State Key τ} {e : Event Key τ} {t : Turn Key τ}

theorem Journal.failures_step (h : Journal log e.time s)
    (htaken : Taken s.cache s.lock e.thread e.time e.action (s.pc e.thread) t) (x : ℚ)
    (hx : (x, Net.failed) ∈ log ++ (entry e t.signal).toList) :
    ∃ last, (after s e t).cache.failedAt = some last ∧ x ≤ last := by
  rcases htaken.failedAt_cases with ⟨hkept, hnet⟩ | ⟨hset, -⟩
  · cases mem_journal.1 hx with
    | inl hold =>
        rw [after, hkept]
        exact h.failures x hold
    | inr hnew => exact absurd hnew.2 hnet
  · refine ⟨e.time, hset, ?_⟩
    cases mem_journal.1 hx with
    | inl hold => exact h.past _ hold
    | inr hnew => exact hnew.1.le

theorem Journal.successes_step (h : Journal log e.time s)
    (htaken : Taken s.cache s.lock e.thread e.time e.action (s.pc e.thread) t) (x : ℚ)
    (hx : (x, Net.succeeded) ∈ log ++ (entry e t.signal).toList) :
    (∃ last, (after s e t).cache.fetchedAt = some last ∧ x ≤ last) ∨
      ∃ thread last, ((after s e t).pc thread).pending = some last ∧ x ≤ last := by
  rcases htaken.fetchedAt_cases with ⟨hkept, hpending, hnet⟩ | ⟨-, hpending, -, -⟩ |
    ⟨time, hpending, hset, -, hnet⟩
  · cases mem_journal.1 hx with
    | inr hnew => exact absurd hnew.2 hnet
    | inl hold =>
        rcases h.successes x hold with hcached | ⟨thread, last, hlast, hle⟩
        · rw [after, hkept]
          exact Or.inl hcached
        · refine Or.inr ⟨thread, last, ?_, hle⟩
          by_cases heq : thread = e.thread
          · subst heq
            rwa [after_pc_self, hpending]
          · rwa [after_pc_other heq]
  · refine Or.inr ⟨e.thread, e.time, by rwa [after_pc_self], ?_⟩
    cases mem_journal.1 hx with
    | inl hold => exact h.past _ hold
    | inr hnew => exact hnew.1.le
  · cases mem_journal.1 hx with
    | inr hnew => exact absurd hnew.2 hnet
    | inl hold => exact Or.inl ⟨time, hset, h.pending e.thread time hpending x hold⟩

theorem Journal.pending_step (h : Journal log e.time s)
    (htaken : Taken s.cache s.lock e.thread e.time e.action (s.pc e.thread) t) {thread : τ}
    {last : ℚ} (hlast : ((after s e t).pc thread).pending = some last) (x : ℚ)
    (hx : (x, Net.succeeded) ∈ log ++ (entry e t.signal).toList) : x ≤ last := by
  by_cases heq : thread = e.thread
  · subst heq
    rw [after_pc_self] at hlast
    rcases htaken.fetchedAt_cases with ⟨-, hpending, hnet⟩ | ⟨-, hpending, -, -⟩ |
      ⟨time, -, -, hpending, -⟩
    · cases mem_journal.1 hx with
      | inl hold => exact h.pending e.thread last (hpending ▸ hlast) x hold
      | inr hnew => exact absurd hnew.2 hnet
    · obtain rfl := Option.some.inj (hpending.symm.trans hlast)
      cases mem_journal.1 hx with
      | inl hold => exact h.past _ hold
      | inr hnew => exact hnew.1.le
    · cases hpending.symm.trans hlast
  · rw [after_pc_other heq] at hlast
    cases mem_journal.1 hx with
    | inl hold => exact h.pending thread last hlast x hold
    | inr hnew =>
        -- Only a thread inside sees a success, and `thread` is inside already.
        rcases htaken.fetchedAt_cases with ⟨-, -, hnet⟩ | ⟨-, -, hinside, -⟩ | ⟨-, -, -, -, hnet⟩
        · exact absurd hnew.2 hnet
        · exact absurd (h.exclusive.eq (Pc.inside_of_pending hlast) hinside) heq
        · exact absurd hnew.2 hnet

theorem Journal.rested_step (h : Journal log e.time s)
    (htaken : Taken s.cache s.lock e.thread e.time e.action (s.pc e.thread) t) {thread : τ}
    {kid : Option String} {read : Option (KeySet Key)}
    (hsending : (after s e t).pc thread = .sending kid read) (x : ℚ)
    (hx : (x, Net.succeeded) ∈ log ++ (entry e t.signal).toList) :
    x + jwksMinRefreshS ≤ e.time := by
  by_cases heq : thread = e.thread
  · subst heq
    rw [after_pc_self] at hsending
    obtain ⟨hlocked, -, hneeds, hnet⟩ := htaken.sending hsending
    cases mem_journal.1 hx with
    | inr hnew => cases hnet.symm.trans hnew.2
    | inl hold =>
        rcases h.successes x hold with ⟨last, hlast, hle⟩ | ⟨other, last, hlast, -⟩
        · exact (add_le_add_left hle _).trans (needsFetch_elapsed hneeds hlast)
        · have hinside : (s.pc e.thread).inside = true := by rw [hlocked]; rfl
          obtain rfl := h.exclusive.eq (Pc.inside_of_pending hlast) hinside
          rw [hlocked] at hlast
          cases hlast
  · rw [after_pc_other heq] at hsending
    cases mem_journal.1 hx with
    | inl hold => exact h.rested thread kid read hsending x hold
    | inr hnew =>
        have hinside : (s.pc thread).inside = true := by rw [hsending]; rfl
        rcases htaken.fetchedAt_cases with ⟨-, -, hnet⟩ | ⟨-, -, hown, -⟩ | ⟨-, -, -, -, hnet⟩
        · exact absurd hnew.2 hnet
        · exact absurd (h.exclusive.eq hinside hown) heq
        · exact absurd hnew.2 hnet

/-- **The journal is kept by every step.** -/
theorem Journal.step (h : Journal log e.time s) :
    Journal (log ++ (entry e (machine.step s e).1).toList) e.time (machine.step s e).2 := by
  have hexclusive := h.exclusive.step e
  rcases step_cases s e with hsame | ⟨t, htaken, hstep⟩
  · rw [hsame]
    simpa [entry, Signal.net] using h
  · rw [hstep] at hexclusive ⊢
    refine ⟨hexclusive, ?_, h.failures_step htaken, h.successes_step htaken,
      fun _ _ hlast => h.pending_step htaken hlast,
      fun _ _ _ hsending => h.rested_step htaken hsending, ?_⟩
    · rintro ⟨x, net⟩ hx
      cases mem_journal.1 hx with
      | inl hold => exact h.past _ hold
      | inr hnew => exact hnew.1.le
    · exact spaced_step h.spaced htaken fun kid read hsending =>
        h.rested e.thread kid read hsending

/-! ## The backoff -/

/-- The step that the code under the lock does not rule out: the thread still
needs a fetch, and one failed within `_JWKS_RETRY_S`. -/
def retriesEarly (s : State Key τ) (e : Event Key τ) : Bool :=
  match s.pc e.thread, e.action with
  | .locked kid _, .next => s.cache.needsFetch kid e.time && s.cache.backingOff e.time
  | _, _ => false

/-- No thread holding the lock retries early. -/
def HeedsBackoff (s : State Key τ) (e : Event Key τ) : Prop := retriesEarly s e = false

instance (s : State Key τ) (e : Event Key τ) : Decidable (HeedsBackoff s e) :=
  inferInstanceAs (Decidable (_ = _))

theorem Cooled.cooled_step (hcooled : Cooled log e.time s) (h : Journal log e.time s)
    (hheeds : HeedsBackoff s e)
    (htaken : Taken s.cache s.lock e.thread e.time e.action (s.pc e.thread) t) {thread : τ}
    {kid : Option String} {read : Option (KeySet Key)}
    (hsending : (after s e t).pc thread = .sending kid read) (x : ℚ)
    (hx : (x, Net.failed) ∈ log ++ (entry e t.signal).toList) :
    x + jwksRetryS ≤ e.time := by
  by_cases heq : thread = e.thread
  · subst heq
    rw [after_pc_self] at hsending
    obtain ⟨hlocked, hnext, hneeds, hnet⟩ := htaken.sending hsending
    cases mem_journal.1 hx with
    | inr hnew => cases hnet.symm.trans hnew.2
    | inl hold =>
        obtain ⟨last, hlast, hle⟩ := h.failures x hold
        simp only [HeedsBackoff, retriesEarly, hlocked, hnext, hneeds, Bool.true_and,
          Jwks.backingOff, hlast, elapsed, Bool.not_eq_false', decide_eq_true_eq] at hheeds
        exact (add_le_add_left hle _).trans (le_sub_iff_add_le'.1 hheeds)
  · rw [after_pc_other heq] at hsending
    cases mem_journal.1 hx with
    | inl hold => exact hcooled.cooled thread kid read hsending x hold
    | inr hnew =>
        have hinside : (s.pc thread).inside = true := by rw [hsending]; rfl
        rcases htaken.failedAt_cases with ⟨-, hnet⟩ | ⟨-, hown, -⟩
        · exact absurd hnew.2 hnet
        · exact absurd (h.exclusive.eq hinside hown) heq

theorem Cooled.step (hcooled : Cooled log e.time s) (h : Journal log e.time s)
    (hheeds : HeedsBackoff s e) :
    Cooled (log ++ (entry e (machine.step s e).1).toList) e.time (machine.step s e).2 := by
  rcases step_cases s e with hsame | ⟨t, htaken, hstep⟩
  · rw [hsame]
    simpa [entry, Signal.net] using hcooled
  · rw [hstep]
    refine ⟨fun _ _ _ hsending => hcooled.cooled_step h hheeds htaken hsending, ?_⟩
    exact spaced_step hcooled.spaced htaken fun kid read hsending =>
      hcooled.cooled e.thread kid read hsending

end Step

/-! ## Runs -/

/-- The journal of a run. -/
def journal (s : State Key τ) (events : List (Event Key τ)) : List (ℚ × Net) :=
  machine.observe entry s events

theorem journal_concat (s : State Key τ) (past : List (Event Key τ)) (e : Event Key τ) :
    journal s (past ++ [e]) =
      journal s past ++ (entry e (machine.answerAfter s past e)).toList :=
  machine.observe_concat _ _ _ _

/-- Every run on a clock that never goes back keeps its journal. -/
theorem run_journal (events : List (Event Key τ)) (hclock : Chronological events) {now : ℚ}
    (hnow : ∀ e ∈ events, e.time ≤ now) :
    Journal (journal init events) now (machine.run init events) := by
  induction events using List.reverseRecOn generalizing now with
  | nil => exact Journal.init
  | append_singleton past e ih =>
      have hpast := ih hclock.left hclock.le_last
      rw [journal_concat, Machine.run_concat]
      exact hpast.step.mono (hnow e (by simp))

theorem run_cooled (events : List (Event Key τ)) (hclock : Chronological events)
    (hheeds : machine.Along HeedsBackoff init events) {now : ℚ}
    (hnow : ∀ e ∈ events, e.time ≤ now) :
    Cooled (journal init events) now (machine.run init events) := by
  induction events using List.reverseRecOn generalizing now with
  | nil => exact ⟨by simp [journal, Machine.observe], List.Pairwise.nil⟩
  | append_singleton past e ih =>
      have hpast := ih hclock.left hheeds.left hclock.le_last
      have hjournal := run_journal past hclock.left hclock.le_last
      rw [journal_concat, Machine.run_concat]
      exact (hpast.step hjournal hheeds.last).mono (hnow e (by simp))

/-- No fetch starts within `_JWKS_MIN_REFRESH_S` of a success, in any schedule. -/
theorem journal_spaced_succeeded (events : List (Event Key τ)) (hclock : Chronological events) :
    (journal init events).Pairwise (Spaced .succeeded jwksMinRefreshS) := by
  obtain ⟨now, hnow⟩ := hclock.exists_bound
  exact (run_journal events hclock hnow).spaced

/-- **The fetch budget.** In a run in which no thread that got the lock retries
early, no fetch starts within `_JWKS_RETRY_S` of a failure or within
`_JWKS_MIN_REFRESH_S` of a success. -/
theorem journal_spaced (events : List (Event Key τ)) (hclock : Chronological events)
    (hheeds : machine.Along HeedsBackoff init events) :
    (journal init events).Pairwise (Spaced .failed jwksRetryS) ∧
      (journal init events).Pairwise (Spaced .succeeded jwksMinRefreshS) := by
  obtain ⟨now, hnow⟩ := hclock.exists_bound
  exact ⟨(run_cooled events hclock hheeds hnow).spaced, journal_spaced_succeeded events hclock⟩

/-- Thread 0 fetches from 0 to 1 and fails, while thread 1 waits for the lock. -/
def outage : List (Event ℕ ℕ) :=
  [⟨0, 0, .call (some "a")⟩, ⟨0, 0, .next⟩, ⟨0, 0, .next⟩, ⟨0, 0, .next⟩, ⟨0, 0, .next⟩,
    ⟨0, 0, .next⟩, ⟨0, 0, .next⟩, ⟨1, 0, .call (some "a")⟩, ⟨1, 0, .next⟩, ⟨1, 0, .next⟩,
    ⟨1, 0, .next⟩, ⟨0, 1, .reply (.error "timed out")⟩, ⟨0, 1, .next⟩, ⟨0, 1, .next⟩]

theorem journal_spaced_outage :
    (journal init (outage ++ [⟨1, 3, .timeout⟩])).Pairwise (Spaced .failed jwksRetryS) ∧
      (journal init (outage ++ [⟨1, 3, .timeout⟩])).Pairwise
        (Spaced .succeeded jwksMinRefreshS) :=
  journal_spaced (outage ++ [⟨1, 3, .timeout⟩]) (by decide +kernel) (by decide +kernel)

/-- Had thread 1 got the lock instead, it would have sent at once. -/
theorem queued_thread_retries_early :
    ¬ ∀ events : List (Event ℕ ℕ), Chronological events →
      (journal init events).Pairwise (Spaced .failed jwksRetryS) ∧
        (journal init events).Pairwise (Spaced .succeeded jwksMinRefreshS) := by
  intro hbudget
  have hspaced := hbudget (outage ++ [⟨1, 1, .next⟩, ⟨1, 1, .next⟩, ⟨1, 1, .next⟩])
    (by decide +kernel)
  exact absurd hspaced.1 (by decide +kernel)

end DealFinder.Auth.Threads
