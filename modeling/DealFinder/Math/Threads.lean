/-
# Threads and a lock

Threads run one code over a shared state and a lock. Where a thread is in the code is its own.
The rule is the one of resource invariants: threads that write hold the lock, and what holds
of the shared state while the lock is free is handed to the thread that takes the lock, which
hands it back (`run_proved`). What is said of a thread that does not hold the lock has to be
stable under the steps of one that does.
-/

import DealFinder.Math.Machine
import Mathlib.Logic.Function.Basic

namespace DealFinder.Math

/-- The effect of a step: where the thread is now, and what it left. -/
structure Turn (σ π τ ο : Type) where
  pc : π
  shared : σ
  lock : Option τ
  signal : ο

/-- The step that a thread takes on an action, if it can take one. -/
abbrev Code (σ π τ α ο : Type) := σ → Option τ → τ → α → π → Option (Turn σ π τ ο)

/-- A thread and what it does. -/
structure Move (τ α : Type) where
  thread : τ
  action : α

/-- The shared state, who holds the lock, and where each thread is. -/
structure Threads (σ π τ : Type) where
  shared : σ
  lock : Option τ
  pc : τ → π

namespace Threads

variable {σ π τ α ο β : Type} [DecidableEq τ]

/-- The state after a thread took a step. -/
def after (s : Threads σ π τ) (thread : τ) (t : Turn σ π τ ο) : Threads σ π τ :=
  ⟨t.shared, t.lock, Function.update s.pc thread t.pc⟩

/-- The threads as a machine. A move that its thread cannot make changes nothing. -/
def machine (code : Code σ π τ α ο) : Machine (Threads σ π τ) (Move τ α) (Option ο) where
  step s e :=
    match code s.shared s.lock e.thread e.action (s.pc e.thread) with
    | none => (none, s)
    | some t => (some t.signal, s.after e.thread t)

section Step

variable {code : Code σ π τ α ο} {s : Threads σ π τ} {e : Move τ α} {t : Turn σ π τ ο}
variable {thread other : τ}

@[simp] theorem after_shared : (s.after thread t).shared = t.shared := rfl

@[simp] theorem after_lock : (s.after thread t).lock = t.lock := rfl

/-- What holds of a thread's next place and of the other places holds of all places after. -/
theorem forall_after {P : τ → π → Prop} (hself : P thread t.pc)
    (hothers : ∀ other, other ≠ thread → P other (s.pc other)) :
    ∀ other, P other ((s.after thread t).pc other) := by
  intro other
  by_cases heq : other = thread
  · subst heq
    simpa [after] using hself
  · simpa [after, Function.update_of_ne heq] using hothers other heq

theorem step_of_code (h : code s.shared s.lock e.thread e.action (s.pc e.thread) = some t) :
    (machine code).step s e = (some t.signal, s.after e.thread t) := by
  simp only [machine, h]

/-- A move is made by its thread alone, or changes nothing. -/
theorem step_cases (code : Code σ π τ α ο) (s : Threads σ π τ) (e : Move τ α) :
    (machine code).step s e = (none, s) ∨
      ∃ t, code s.shared s.lock e.thread e.action (s.pc e.thread) = some t ∧
        (machine code).step s e = (some t.signal, s.after e.thread t) := by
  cases hcode : code s.shared s.lock e.thread e.action (s.pc e.thread) with
  | none =>
      apply Or.inl
      simp only [machine, hcode]
  | some t => exact Or.inr ⟨t, rfl, step_of_code hcode⟩

end Step

/-- The lock is held by the one thread that is inside. -/
def Exclusive (inside : π → Bool) (s : Threads σ π τ) : Prop :=
  ∀ thread, inside (s.pc thread) = true ↔ s.lock = some thread

/-! ## The rule of resource invariants -/

/-- What a proof of a code says: who is inside, what is recorded of its signals, what holds of
the record and the shared state while the lock is free, and what holds at each place. -/
structure Outline (σ π ο β : Type) where
  inside : π → Bool
  record : ο → Option β
  free : List β → σ → Prop
  at' : List β → σ → π → Prop

namespace Outline

variable (O : Outline σ π ο β)

/-- The record after a signal. -/
def extend (log : List β) (signal : ο) : List β := log ++ (O.record signal).toList

/-- The kinds of steps that an outline allows. -/
inductive Allowed (log : List β) (shared : σ) (lock : Option τ) (thread : τ) (pc : π) :
    Turn σ π τ ο → Prop
  /-- Outside, and nothing is written or recorded. -/
  | apart {t : Turn σ π τ ο} (hlock : t.lock = lock) (hpc : O.inside pc = false)
      (hnext : O.inside t.pc = false) (hshared : t.shared = shared)
      (hrecord : O.record t.signal = none)
      (hat : O.at' log shared pc → O.at' log shared t.pc) : Allowed log shared lock thread pc t
  /-- The lock is taken. -/
  | acquire {t : Turn σ π τ ο} (hfree : lock = none) (hlock : t.lock = some thread)
      (hnext : O.inside t.pc = true) (hshared : t.shared = shared)
      (hrecord : O.record t.signal = none)
      (hat : O.free log shared → O.at' log shared pc → O.at' log shared t.pc) :
      Allowed log shared lock thread pc t
  /-- Inside. -/
  | inner {t : Turn σ π τ ο} (hlock : t.lock = lock) (hpc : O.inside pc = true)
      (hnext : O.inside t.pc = true)
      (hat : O.at' log shared pc → O.at' (O.extend log t.signal) t.shared t.pc)
      (hstable : ∀ pc', O.inside pc' = false → O.at' log shared pc → O.at' log shared pc' →
        O.at' (O.extend log t.signal) t.shared pc') : Allowed log shared lock thread pc t
  /-- The lock is given back. -/
  | release {t : Turn σ π τ ο} (hpc : O.inside pc = true) (hlock : t.lock = none)
      (hnext : O.inside t.pc = false) (hshared : t.shared = shared)
      (hrecord : O.record t.signal = none)
      (hat : O.at' log shared pc → O.free log shared ∧ O.at' log shared t.pc) :
      Allowed log shared lock thread pc t

/-- The outline proves a code. -/
def Proves (code : Code σ π τ α ο) : Prop :=
  ∀ {log shared lock thread action pc t}, code shared lock thread action pc = some t →
    O.Allowed log shared lock thread pc t

/-- The outline holds of a state. -/
structure Holds (log : List β) (s : Threads σ π τ) : Prop where
  exclusive : Exclusive O.inside s
  free : s.lock = none → O.free log s.shared
  at' : ∀ thread, O.at' log s.shared (s.pc thread)

/-- What a run leaves on the record. -/
def log (code : Code σ π τ α ο) (s : Threads σ π τ) (moves : List (Move τ α)) : List β :=
  (machine code).observe (fun _ signal => signal.bind O.record) s moves

variable {O} {code : Code σ π τ α ο} {log : List β} {s : Threads σ π τ}

theorem extend_of_none {signal : ο} (h : O.record signal = none) : O.extend log signal = log := by
  rw [extend, h, Option.toList_none, List.append_nil]

theorem holds_after {thread : τ} {t : Turn σ π τ ο}
    (hself : O.inside t.pc = true ↔ t.lock = some thread)
    (hothers : ∀ other, other ≠ thread → (O.inside (s.pc other) = true ↔ t.lock = some other))
    (hfree : t.lock = none → O.free log t.shared) (hat : O.at' log t.shared t.pc)
    (hats : ∀ other, other ≠ thread → O.at' log t.shared (s.pc other)) :
    O.Holds log (s.after thread t) where
  exclusive := forall_after (P := fun other pc => O.inside pc = true ↔ t.lock = some other)
    hself hothers
  free := hfree
  at' := forall_after (P := fun _ pc => O.at' log t.shared pc) hat hats

/-- An allowed step keeps the outline. -/
theorem Holds.after {thread : τ} {t : Turn σ π τ ο} (h : O.Holds log s)
    (hallowed : O.Allowed log s.shared s.lock thread (s.pc thread) t) :
    O.Holds (O.extend log t.signal) (s.after thread t) := by
  have hmine := h.exclusive thread
  have hoff : ∀ other, other ≠ thread → s.lock = some thread → O.inside (s.pc other) = false := by
    intro other hne hlock
    rw [← Bool.not_eq_true, h.exclusive other, hlock]
    exact fun hsame => hne (Option.some.inj hsame).symm
  cases hallowed with
  | apart hlock hpc hnext hshared hrecord hat =>
      rw [extend_of_none hrecord]
      refine holds_after ?_ (fun other _ => ?_) (fun hfree => ?_) ?_ fun other _ => ?_
      · rw [hlock, hnext, ← hmine, hpc]
      · rw [hlock]
        exact h.exclusive other
      · rw [hshared]
        exact h.free (hlock.symm.trans hfree)
      · rw [hshared]
        exact hat (h.at' thread)
      · rw [hshared]
        exact h.at' other
  | acquire hfree hlock hnext hshared hrecord hat =>
      rw [extend_of_none hrecord]
      refine holds_after ?_ (fun other hne => ?_) (fun hnone => ?_) ?_ fun other _ => ?_
      · simp [hlock, hnext]
      · have hother := h.exclusive other
        rw [hfree] at hother
        rw [hlock, hother]
        simp [Ne.symm hne]
      · rw [hlock] at hnone
        cases hnone
      · rw [hshared]
        exact hat (h.free hfree) (h.at' thread)
      · rw [hshared]
        exact h.at' other
  | inner hlock hpc hnext hat hstable =>
      refine holds_after ?_ (fun other _ => ?_) (fun hfree => ?_) ?_ fun other hne => ?_
      · rw [hlock, hnext, ← hmine, hpc]
      · rw [hlock]
        exact h.exclusive other
      · rw [hlock, hmine.1 hpc] at hfree
        cases hfree
      · exact hat (h.at' thread)
      · exact hstable _ (hoff other hne (hmine.1 hpc)) (h.at' thread) (h.at' other)
  | release hpc hlock hnext hshared hrecord hat =>
      rw [extend_of_none hrecord]
      have hdone := hat (h.at' thread)
      refine holds_after ?_ (fun other hne => ?_) (fun _ => ?_) ?_ fun other _ => ?_
      · simp [hlock, hnext]
      · rw [hlock, hoff other hne (hmine.1 hpc)]
        simp
      · rw [hshared]
        exact hdone.1
      · rw [hshared]
        exact hdone.2
      · rw [hshared]
        exact h.at' other

/-- **The rule of resource invariants.** An outline that proves the code and holds at the start
holds after every schedule. -/
theorem run_proved (hcode : O.Proves code) {start : Threads σ π τ} (hstart : O.Holds [] start)
    (moves : List (Move τ α)) : O.Holds (O.log code start moves) ((machine code).run start moves) := by
  refine Machine.run_history (P := fun past s => O.Holds (O.log code start past) s) hstart ?_ moves
  intro past e hpast
  rw [log, Machine.observe_concat, Machine.answerAfter]
  rcases step_cases code ((machine code).run start past) e with hsame | ⟨t, htaken, hstep⟩
  · rw [hsame, Option.bind_none, Option.toList_none, List.append_nil]
    exact hpast
  · rw [hstep]
    exact hpast.after (hcode htaken)

end Outline

end Threads

end DealFinder.Math
