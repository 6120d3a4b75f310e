/-
# Time stamps in a sliding window

A window of length `w` that ends at `now` holds the stamps in `(now - w, now]`.
Stamps are recorded in nondecreasing order, so pruning the expired ones from the
front of a queue is the same as filtering, and pruning is never observable at a
later time.

`Admissible` says of a list of recorded stamps that each was recorded while
fewer than `limit` earlier ones were still live. This local condition, checked
once for each stamp, bounds every window of the list, at every time.
-/

import Mathlib.Algebra.Order.Group.Defs
import Mathlib.Algebra.Order.Sub.Basic
import Mathlib.Data.List.Induction
import Mathlib.Data.List.Sort
import Mathlib.Tactic.Abel

namespace DealFinder.Math

universe u v

variable {τ : Type u} [AddCommGroup τ] [LinearOrder τ]

/-- The stamps that have not expired at `now`. -/
def live (window now : τ) (stamps : List τ) : List τ :=
  stamps.filter fun t => decide (now - window < t)

theorem mem_live {window now t : τ} {stamps : List τ} :
    t ∈ live window now stamps ↔ t ∈ stamps ∧ now - window < t := by
  simp [live]

@[simp]
theorem live_nil (window now : τ) : live window now [] = [] := rfl

/-- The stamps in the window `(now - window, now]`. -/
def within (window now : τ) (stamps : List τ) : List τ :=
  stamps.filter fun t => decide (now - window < t ∧ t ≤ now)

/-- Stamps of the past lie in the window exactly when they are live. -/
theorem within_eq_live {window now : τ} {stamps : List τ} (hpast : ∀ t ∈ stamps, t ≤ now) :
    within window now stamps = live window now stamps :=
  List.filter_congr fun t ht => by simp [hpast t ht]

theorem live_append (window now : τ) (first second : List τ) :
    live window now (first ++ second) = live window now first ++ live window now second :=
  List.filter_append ..

theorem live_eq_nil {window now : τ} {stamps : List τ}
    (hexpired : ∀ t ∈ stamps, t ≤ now - window) : live window now stamps = [] := by
  rw [live, List.filter_eq_nil_iff]
  intro t ht
  simpa using hexpired t ht

theorem live_sublist (window now : τ) (stamps : List τ) :
    (live window now stamps).Sublist stamps :=
  List.filter_sublist

section Stamped

variable {α : Type v} (stamp : α → τ)

/-- The stamped events that have not expired at `now`. -/
def unexpired (window now : τ) (events : List α) : List α :=
  events.filter fun e => decide (now - window < stamp e)

variable {stamp}

theorem unexpired_append (window now : τ) (first second : List α) :
    unexpired stamp window now (first ++ second) =
      unexpired stamp window now first ++ unexpired stamp window now second :=
  List.filter_append ..

/-- In recording order, popping expired events off the front is filtering. -/
theorem dropWhile_eq_unexpired {window now : τ} {events : List α}
    (hsorted : events.Pairwise fun e f => stamp e ≤ stamp f) :
    (events.dropWhile fun e => decide (stamp e ≤ now - window)) =
      unexpired stamp window now events := by
  induction events with
  | nil => rfl
  | cons e rest ih =>
      obtain ⟨hhead, htail⟩ := List.pairwise_cons.1 hsorted
      by_cases hold : stamp e ≤ now - window
      · rw [List.dropWhile_cons_of_pos (by simpa using hold), ih htail]
        simp [unexpired, hold]
      · have hkept : ∀ f ∈ e :: rest, decide (now - window < stamp f) = true := by
          intro f hf
          rcases List.mem_cons.1 hf with rfl | hf
          · simpa using hold
          · simpa using lt_of_lt_of_le (not_le.1 hold) (hhead f hf)
        rw [List.dropWhile_cons_of_neg (by simpa using hold), unexpired,
          List.filter_eq_self.2 hkept]

end Stamped

/-- In recording order, popping expired stamps off the front is filtering. -/
theorem dropWhile_eq_live {window now : τ} {stamps : List τ}
    (hsorted : stamps.Pairwise (· ≤ ·)) :
    (stamps.dropWhile fun t => decide (t ≤ now - window)) = live window now stamps :=
  dropWhile_eq_unexpired hsorted

/-- Each recorded stamp saw fewer than `limit` live stamps before it. -/
def Admissible (limit : ℕ) (window : τ) (stamps : List τ) : Prop :=
  ∀ past t rest, stamps = past ++ t :: rest → (live window t past).length < limit

theorem admissible_nil (limit : ℕ) (window : τ) : Admissible limit window [] := by
  intro past t rest heq
  simp at heq

theorem Admissible.concat {limit : ℕ} {window t : τ} {stamps : List τ}
    (h : Admissible limit window stamps) (hroom : (live window t stamps).length < limit) :
    Admissible limit window (stamps ++ [t]) := by
  intro past s rest heq
  rcases List.eq_nil_or_concat' rest with rfl | ⟨init, last, rfl⟩
  · obtain ⟨rfl, hlast⟩ := List.append_inj' heq rfl
    cases hlast
    exact hroom
  · rw [← List.cons_append, ← List.append_assoc] at heq
    exact h past s init (List.append_inj' heq rfl).1

/-- Dropping the last stamp keeps a list admissible. -/
theorem Admissible.init {limit : ℕ} {window t : τ} {stamps : List τ}
    (h : Admissible limit window (stamps ++ [t])) : Admissible limit window stamps := by
  intro past s rest heq
  exact h past s (rest ++ [t]) (by simp [heq])

variable [IsOrderedAddMonoid τ]

/-- Pruning at one time cannot be noticed at a later time. -/
theorem unexpired_unexpired {α : Type v} {stamp : α → τ} {window now later : τ}
    (hle : now ≤ later) (events : List α) :
    unexpired stamp window later (unexpired stamp window now events) =
      unexpired stamp window later events := by
  rw [unexpired, unexpired, List.filter_filter]
  apply List.filter_congr
  intro e _
  have hcutoff : now - window ≤ later - window := sub_le_sub_right hle window
  simp only [Bool.and_eq_decide, decide_eq_true_eq, decide_eq_decide, and_iff_left_iff_imp]
  exact fun hlate => lt_of_le_of_lt hcutoff hlate

theorem live_live {window now later : τ} (hle : now ≤ later) (stamps : List τ) :
    live window later (live window now stamps) = live window later stamps :=
  unexpired_unexpired hle stamps

/-- Two queues that agree on the live stamps keep agreeing as time passes. -/
theorem live_congr_later {window now later : τ} {first second : List τ}
    (hle : now ≤ later) (heq : live window now first = live window now second) :
    live window later first = live window later second := by
  rw [← live_live hle first, heq, live_live hle second]

/-- **The window bound.** In an admissible list every window `(t - window, t]`
holds at most `limit` stamps. -/
theorem Admissible.window_le {limit : ℕ} {window : τ} {stamps : List τ}
    (h : Admissible limit window stamps) (hsorted : stamps.Pairwise (· ≤ ·)) (t : τ) :
    (within window t stamps).length ≤ limit := by
  unfold within
  induction stamps using List.reverseRecOn with
  | nil => simp
  | append_singleton past last ih =>
      have hpast := (List.pairwise_append.1 hsorted).1
      by_cases hin : t - window < last ∧ last ≤ t
      · -- The window at `t` holds `last`, and what it holds besides was live when
        -- `last` was recorded.
        have hroom : (live window last past).length < limit := h past last [] rfl
        have hsub : (past.filter fun s => decide (t - window < s ∧ s ≤ t)).length ≤
            (live window last past).length := by
          refine List.Sublist.length_le (List.monotone_filter_right past fun s hs => ?_)
          have hcutoff : last - window ≤ t - window := sub_le_sub_right hin.2 window
          simp only [decide_eq_true_eq] at hs ⊢
          exact lt_of_le_of_lt hcutoff hs.1
        rw [List.filter_append, List.filter_cons_of_pos (by simpa using hin),
          List.length_append, List.filter_nil, List.length_singleton]
        omega
      · rw [List.filter_append, List.filter_cons_of_neg (by simpa using hin),
          List.filter_nil, List.append_nil]
        exact ih h.init hpast

end DealFinder.Math
