/-
# What is left of a limit

`remaining` counts the live stamps of a queue without popping the others, and `allow` pops. On a
history whose clock never goes back the queues are sorted (`Orderly`), so the two agree as long as
the window is positive. A window that is not lets every request through, and `remaining` still says
`limit` (`predicts_iff`).
-/

import DealFinder.Limits.Runs
import DealFinder.Math.Noninterference

namespace DealFinder.Limits

open DealFinder.Math

namespace SlidingWindowRateLimiter

/-- `SlidingWindowRateLimiter.remaining`. Looking up an unknown user leaves it an empty queue. -/
def remaining (w : SlidingWindowRateLimiter) (user_id : String) (now : ℚ) :
    ℤ × SlidingWindowRateLimiter :=
  let events := w.events.getD user_id []
  let active := (events.filter fun t => decide (t > now - w.window)).length
  (max 0 (w.limit - active), { w with events := w.events.set user_id events })

/-- A call of the limiter. -/
inductive Call
  | allow (user_id : String) (now : ℚ)
  | remaining (user_id : String) (now : ℚ)
  deriving DecidableEq

/-- What a call returns. -/
inductive Returned
  | allowed (answer : Bool)
  | left (count : ℤ)
  deriving DecidableEq

namespace Call

def now : Call → ℚ
  | allow _ now => now
  | remaining _ now => now

def isAllow : Call → Bool
  | allow _ _ => true
  | remaining _ _ => false

end Call

/-- The limiter as a machine that takes calls. -/
def calls : Machine SlidingWindowRateLimiter Call Returned where
  step
    | w, .allow user_id now => ((w.allow user_id now).map .allowed id)
    | w, .remaining user_id now => ((w.remaining user_id now).map .left id)

/-- An answer of `allow`. -/
def allowAnswer : Call → Returned → Option Bool
  | _, .allowed answer => some answer
  | _, .left _ => none

/-- The answers of `allow` along a history. -/
def allowAnswers (w : SlidingWindowRateLimiter) (history : List Call) : List Bool :=
  calls.observe allowAnswer w history

/-- `remaining` says, after a history, how many calls of `allow` will be answered `True`, and no
answer of `allow` in that history depends on calls of `remaining`. -/
structure Predicts (w : SlidingWindowRateLimiter) (history : List Call) (user_id : String)
    (now : ℚ) : Prop where
  counts : ∀ r : ℕ, calls.answerAfter w history (.remaining user_id now) = .left r ↔
    allowAnswers (calls.run w (history ++ [.remaining user_id now]))
      (List.replicate (r + 1) (.allow user_id now)) = List.replicate r true ++ [false]
  unseen : ∀ other, other.filter Call.isAllow = history.filter Call.isAllow →
    allowAnswers w other = allowAnswers w history

/-! ## Looking leaves no trace -/

section Unseen

variable {v w : SlidingWindowRateLimiter}

/-- Two limiters with the same limit and window and the same queue for every user. -/
structure Alike (v w : SlidingWindowRateLimiter) : Prop where
  limit : v.limit = w.limit
  window : v.window = w.window
  queue : ∀ user_id, v.queue user_id = w.queue user_id

theorem Alike.refl (w : SlidingWindowRateLimiter) : Alike w w := ⟨rfl, rfl, fun _ => rfl⟩

theorem queue_set (w : SlidingWindowRateLimiter) (user_id other : String) (ev : List ℚ) :
    { w with events := w.events.set user_id ev }.queue other =
      if other = user_id then ev else w.queue other := by
  rw [queue, Dict.getD, Dict.get?_set]
  by_cases hother : other = user_id
  · rw [if_pos hother, if_pos hother]
    rfl
  · rw [if_neg hother, if_neg hother]
    rfl

theorem queue_remaining (w : SlidingWindowRateLimiter) (user_id other : String) (now : ℚ) :
    (w.remaining user_id now).2.queue other = w.queue other := by
  by_cases hother : other = user_id
  · subst hother
    exact (queue_set w other other (w.queue other)).trans (if_pos rfl)
  · exact (queue_set w user_id other (w.queue user_id)).trans (if_neg hother)

theorem Alike.remaining_left (h : Alike v w) (user_id : String) (now : ℚ) :
    Alike (v.remaining user_id now).2 w where
  limit := h.limit
  window := h.window
  queue other := (queue_remaining v user_id other now).trans (h.queue other)

theorem Alike.allow (h : Alike v w) (user_id : String) (now : ℚ) :
    (v.allow user_id now).1 = (w.allow user_id now).1 ∧
      Alike (v.allow user_id now).2 (w.allow user_id now).2 := by
  have hqueue : v.events.getD user_id [] = w.events.getD user_id [] := h.queue user_id
  have halike : ∀ ev, Alike { w with events := v.events.set user_id ev }
      { w with events := w.events.set user_id ev } := by
    intro ev
    refine ⟨rfl, rfl, fun other => ?_⟩
    calc { v with events := v.events.set user_id ev }.queue other
        = if other = user_id then ev else v.queue other := queue_set v user_id other ev
      _ = if other = user_id then ev else w.queue other := by rw [h.queue other]
      _ = { w with events := w.events.set user_id ev }.queue other :=
        (queue_set w user_id other ev).symm
  simp only [SlidingWindowRateLimiter.allow, hqueue, h.limit, h.window]
  split_ifs
  · exact ⟨rfl, halike _⟩
  · exact ⟨rfl, halike _⟩

theorem allowAnswers_filter (h : Alike v w) (history : List Call) :
    allowAnswers v history = allowAnswers w (history.filter Call.isAllow) := by
  apply Machine.observe_filter (R := Alike) _ _ history h
  · intro s s' call hs hkeep
    cases call with
    | allow user_id now =>
        obtain ⟨hanswer, hnext⟩ := hs.allow user_id now
        exact ⟨congrArg some hanswer, hnext⟩
    | remaining user_id now => cases hkeep
  · intro s s' call hs hkeep
    cases call with
    | allow user_id now => cases hkeep
    | remaining user_id now => exact ⟨rfl, hs.remaining_left user_id now⟩

end Unseen

/-! ## Queues along a history -/

section Orderly

variable {w : SlidingWindowRateLimiter} {user_id : String} {now later : ℚ}

/-- Every queue is sorted and lies in the past. -/
structure Orderly (w : SlidingWindowRateLimiter) (now : ℚ) : Prop where
  sorted : ∀ user_id, (w.queue user_id).Pairwise (· ≤ ·)
  past : ∀ user_id, ∀ t ∈ w.queue user_id, t ≤ now

theorem Orderly.mono (h : w.Orderly now) (hle : now ≤ later) : w.Orderly later :=
  { h with past := fun user_id t ht => (h.past user_id t ht).trans hle }

/-- What a request leaves of the queues. -/
theorem queue_allow (hsorted : (w.queue user_id).Pairwise (· ≤ ·)) (now : ℚ) (other : String) :
    (w.allow user_id now).2.queue other =
      if other = user_id then
        live w.window now (w.queue user_id) ++ if (w.allow user_id now).1 then [now] else []
      else w.queue other := by
  rw [allow_fst_of_sorted hsorted, allow_of_sorted hsorted]
  by_cases hroom : (live w.window now (w.queue user_id)).length < w.limit
  · rw [if_pos hroom, decide_eq_true hroom]
    exact queue_set w user_id other _
  · rw [if_neg hroom, decide_eq_false hroom, if_neg Bool.false_ne_true, List.append_nil]
    exact queue_set w user_id other _

theorem Orderly.allow (h : w.Orderly now) (user_id : String) :
    (w.allow user_id now).2.Orderly now := by
  have hlive : (live w.window now (w.queue user_id)).Pairwise (· ≤ ·) :=
    (h.sorted user_id).sublist (live_sublist w.window now _)
  have hpast : ∀ t ∈ live w.window now (w.queue user_id), t ≤ now :=
    fun t ht => h.past user_id t ((live_sublist w.window now _).subset ht)
  constructor
  · intro other
    rw [queue_allow (h.sorted user_id)]
    split_ifs
    · exact List.pairwise_append.2 ⟨hlive, List.pairwise_singleton _ _, by simpa using hpast⟩
    · rwa [List.append_nil]
    · exact h.sorted other
  · intro other t ht
    rw [queue_allow (h.sorted user_id)] at ht
    split_ifs at ht
    · rcases List.mem_append.1 ht with ht | ht
      · exact hpast t ht
      · exact (List.mem_singleton.1 ht).le
    · rw [List.append_nil] at ht
      exact hpast t ht
    · exact h.past other t ht

theorem Orderly.remaining (h : w.Orderly now) (user_id : String) (later : ℚ) :
    (w.remaining user_id later).2.Orderly now where
  sorted other := (queue_remaining w user_id other later).symm ▸ h.sorted other
  past other := (queue_remaining w user_id other later).symm ▸ h.past other

/-- A call keeps the queues in order. -/
theorem Orderly.step (h : w.Orderly now) (call : Call) (hnow : now ≤ call.now) :
    (calls.step w call).2.Orderly call.now := by
  cases call with
  | allow user_id stamp => exact (h.mono hnow).allow user_id
  | remaining user_id stamp => exact (h.mono hnow).remaining user_id stamp

end Orderly

/-! ## Asking again and again -/

section Again

variable {w : SlidingWindowRateLimiter} {user_id : String} {now : ℚ}

/-- The room that is left for a user. -/
def room (w : SlidingWindowRateLimiter) (user_id : String) (now : ℚ) : ℕ :=
  w.limit - (live w.window now (w.queue user_id)).length

theorem remaining_fst (w : SlidingWindowRateLimiter) (user_id : String) (now : ℚ) :
    (w.remaining user_id now).1 = w.room user_id now := by
  have hcount : (w.remaining user_id now).1 =
      max 0 ((w.limit : ℤ) - (live w.window now (w.queue user_id)).length) := rfl
  rw [hcount, room]
  omega

theorem room_remaining (w : SlidingWindowRateLimiter) (user_id : String) (now : ℚ) :
    (w.remaining user_id now).2.room user_id now = w.room user_id now := by
  rw [room, queue_remaining]
  rfl

theorem allow_fst_eq_room (h : w.Orderly now) (user_id : String) :
    (w.allow user_id now).1 = decide (0 < w.room user_id now) := by
  rw [allow_fst_of_sorted (h.sorted user_id), room]
  simp only [Nat.sub_pos_iff_lt]

/-- An admission takes one place, when the window is positive. -/
theorem room_allow (h : w.Orderly now) (hwindow : 0 < w.window) (user_id : String) :
    (w.allow user_id now).2.room user_id now = w.room user_id now - 1 := by
  have hrecent : now - w.window < now := sub_lt_self now hwindow
  have hadmitted := allow_fst_eq_room h user_id
  rw [room, allow_limit, allow_window, queue_allow (h.sorted user_id), if_pos rfl, live_append,
    live_live le_rfl, List.length_append, hadmitted]
  by_cases hroom : 0 < w.room user_id now
  · rw [decide_eq_true hroom, if_pos rfl]
    have hone : live w.window now [now] = [now] := List.filter_cons_of_pos (by simpa using hrecent)
    rw [hone, List.length_singleton, room]
    omega
  · rw [decide_eq_false hroom, if_neg Bool.false_ne_true, live_nil, List.length_nil, room]
    rw [room] at hroom
    omega

/-- Without a positive window there is always room for `limit` requests. -/
theorem room_of_window_nonpos (h : w.Orderly now) (hwindow : w.window ≤ 0) (user_id : String) :
    w.room user_id now = w.limit := by
  have hexpired : ∀ t ∈ w.queue user_id, t ≤ now - w.window :=
    fun t ht => (h.past user_id t ht).trans (le_sub_self_iff now |>.2 hwindow)
  rw [room, live_eq_nil hexpired]
  rfl

theorem allowAnswers_allow (w : SlidingWindowRateLimiter) (user_id : String) (now : ℚ)
    (rest : List Call) :
    allowAnswers w (.allow user_id now :: rest) =
      (w.allow user_id now).1 :: allowAnswers (w.allow user_id now).2 rest := rfl

/-- As many requests are admitted as there is room for, and then one is refused. -/
theorem allowAnswers_replicate (h : w.Orderly now) (hwindow : 0 < w.window) (user_id : String)
    (r : ℕ) :
    allowAnswers w (List.replicate (r + 1) (.allow user_id now)) =
        List.replicate r true ++ [false] ↔ w.room user_id now = r := by
  induction r generalizing w with
  | zero =>
      rw [List.replicate_one, allowAnswers_allow, allow_fst_eq_room h]
      simp [allowAnswers, Machine.observe]
  | succ r ih =>
      have hnext := room_allow h hwindow user_id
      have hmore := ih (h.allow user_id) (by rwa [allow_window])
      have hlong : List.replicate (r + 1) true ++ [false] =
          true :: (List.replicate r true ++ [false]) := rfl
      rw [List.replicate_succ, allowAnswers_allow, allow_fst_eq_room h, hlong, List.cons_eq_cons,
        hmore, hnext, decide_eq_true_iff]
      omega

theorem allowAnswers_of_window_nonpos (h : w.Orderly now) (hwindow : w.window ≤ 0)
    (user_id : String) (n : ℕ) :
    allowAnswers w (List.replicate n (.allow user_id now)) = List.replicate n true := by
  induction n generalizing w with
  | zero => rfl
  | succ n ih =>
      have hroom : 0 < w.room user_id now := by
        rw [room_of_window_nonpos h hwindow]
        exact w.limit_pos
      rw [List.replicate_succ, allowAnswers_allow, allow_fst_eq_room h, decide_eq_true hroom,
        ih (h.allow user_id) (by rwa [allow_window]), List.replicate_succ]

end Again

/-! ## The prediction -/

section Predicts

variable {limit : ℕ} {window now : ℚ} {w : SlidingWindowRateLimiter} {user_id : String}

/-- The clock never goes back along a history. -/
def InOrder (history : List Call) : Prop :=
  history.Pairwise fun earlier later => earlier.now ≤ later.now

instance (history : List Call) : Decidable (InOrder history) :=
  inferInstanceAs (Decidable (history.Pairwise fun earlier later => earlier.now ≤ later.now))

theorem run_window (w : SlidingWindowRateLimiter) (history : List Call) :
    (calls.run w history).window = w.window := by
  induction history using List.reverseRecOn with
  | nil => rfl
  | append_singleton past call ih =>
      rw [Machine.run_concat, ← ih]
      cases call with
      | allow user_id now => exact allow_window _ user_id now
      | remaining user_id now => rfl

theorem run_orderly (hnew : new limit window = .ok w) (history : List Call)
    (horder : InOrder history) (hnow : ∀ call ∈ history, call.now ≤ now) :
    (calls.run w history).Orderly now := by
  induction history using List.reverseRecOn generalizing now with
  | nil =>
      have hqueue : ∀ user_id, w.queue user_id = [] := by
        intro user_id
        rw [queue, (new_eq_ok hnew).2.2]
        rfl
      constructor
      · intro user_id
        rw [Machine.run_nil, hqueue]
        exact List.Pairwise.nil
      · intro user_id t ht
        rw [Machine.run_nil, hqueue] at ht
        cases ht
  | append_singleton past call ih =>
      obtain ⟨hpast, -, hlast⟩ := List.pairwise_append.1 horder
      have hbefore := ih hpast fun earlier hearlier =>
        hlast earlier hearlier call List.mem_cons_self
      rw [Machine.run_concat]
      exact (hbefore.step call le_rfl).mono (hnow call (by simp))

theorem not_predicts_of_nonpos {history : List Call} (h : (calls.run w history).Orderly now)
    (hwindow : w.window ≤ 0) : ¬ Predicts w history user_id now := by
  intro hpredicts
  have hlimit := room_of_window_nonpos h (by rwa [run_window]) user_id
  have hanswers := (hpredicts.counts (calls.run w history).limit).1
    (congrArg Returned.left ((remaining_fst _ user_id now).trans (congrArg Nat.cast hlimit)))
  rw [← run_window w history] at hwindow
  have hall := allowAnswers_of_window_nonpos (h.remaining user_id now) hwindow user_id
    ((calls.run w history).limit + 1)
  have hsame : List.replicate (calls.run w history).limit true ++ [false] =
      List.replicate ((calls.run w history).limit + 1) true :=
    hanswers.symm.trans ((congrArg (fun v => allowAnswers v _) (Machine.run_concat ..)).trans hall)
  have hfalse : false ∈ List.replicate ((calls.run w history).limit + 1) true := by
    rw [← hsame]
    exact List.mem_append_right _ List.mem_cons_self
  cases List.eq_of_mem_replicate hfalse

/-- **`remaining` predicts `allow` exactly when the window is positive**, after every history whose
clock never goes back. -/
theorem predicts_iff (hnew : new limit window = .ok w) (history : List Call)
    (horder : InOrder history) (hnow : ∀ call ∈ history, call.now ≤ now) (user_id : String) :
    Predicts w history user_id now ↔ 0 < window := by
  have horderly := run_orderly hnew history horder hnow
  have hwindow := (new_eq_ok hnew).2.1
  constructor
  · intro hpredicts
    by_contra hnonpos
    rw [← hwindow, not_lt] at hnonpos
    exact not_predicts_of_nonpos horderly hnonpos hpredicts
  · intro hpos
    rw [← hwindow, ← run_window w history] at hpos
    constructor
    · intro r
      have hasked := allowAnswers_replicate (horderly.remaining user_id now) hpos user_id r
      rw [room_remaining] at hasked
      rw [Machine.run_concat]
      apply Iff.trans _ hasked.symm
      have hanswer : calls.answerAfter w history (.remaining user_id now) =
          .left ((calls.run w history).room user_id now) :=
        congrArg Returned.left (remaining_fst _ user_id now)
      rw [hanswer, Returned.left.injEq, Nat.cast_inj]
    · intro other hsame
      rw [allowAnswers_filter (Alike.refl w) other, hsame, ← allowAnswers_filter (Alike.refl w)]

/-- One request a minute: none is left after one, and one is again a minute later. -/
theorem predicts_iff_minute :
    Predicts ⟨1, 60, .empty, le_rfl⟩ [.allow "a" 0, .remaining "b" 1] "a" 2 ↔ (0 : ℚ) < 60 :=
  predicts_iff (show new 1 60 = .ok _ from rfl) _ (by decide +kernel) (by decide +kernel) "a"

/-- With a window of no length one request is left, and two are admitted. -/
theorem remaining_underestimates :
    ¬ ∀ (limit : ℕ) (window now : ℚ) (w : SlidingWindowRateLimiter) (history : List Call)
        (user_id : String), new limit window = .ok w → InOrder history →
      (∀ call ∈ history, call.now ≤ now) → Predicts w history user_id now := by
  intro hclaim
  have hpredicts := hclaim 1 0 0 ⟨1, 0, .empty, le_rfl⟩ [] "a" rfl List.Pairwise.nil
    (fun call hcall => absurd hcall List.not_mem_nil)
  have hcounts := (hpredicts.counts 1).1 (by decide +kernel)
  exact absurd hcounts (by decide +kernel)

end Predicts

end SlidingWindowRateLimiter

end DealFinder.Limits
