/-
# Judged attempts

A search that judges each attempt and moves on while it is not satisfied, a bounded number
of times. It is left at the attempt it accepted or, when it accepted none, one move beyond
the last (`settled_like_last_iff`).
-/

import Mathlib.Data.List.Basic
import Mathlib.Logic.Function.Iterate

namespace DealFinder.Math

universe u v

variable {σ : Type u} {α : Type v} (accepts : σ → Bool) (next : σ → σ)

/-- The attempts, in order. -/
def attempts : ℕ → σ → List σ
  | 0, _ => []
  | n + 1, s => s :: if accepts s then [] else attempts n (next s)

/-- Where the attempts leave off. -/
def settled : ℕ → σ → σ
  | 0, s => s
  | n + 1, s => if accepts s then s else settled n (next s)

/-- Some attempt would be accepted within a bound. -/
def AcceptedWithin (n : ℕ) (s : σ) : Prop := ∃ i < n, accepts (next^[i] s) = true

variable {accepts next}

theorem length_attempts_le (n : ℕ) (s : σ) : (attempts accepts next n s).length ≤ n := by
  induction n generalizing s with
  | zero => exact Nat.le_refl 0
  | succ n ih =>
      rw [attempts, List.length_cons]
      apply Nat.succ_le_succ
      split_ifs
      · exact Nat.zero_le n
      · exact ih (next s)

theorem attempts_succ_ne_nil (n : ℕ) (s : σ) : attempts accepts next (n + 1) s ≠ [] :=
  List.cons_ne_nil _ _

/-- Only the last attempt can be accepted. -/
theorem not_accepts_of_mem_dropLast {n : ℕ} {s t : σ}
    (h : t ∈ (attempts accepts next n s).dropLast) : accepts t = false := by
  induction n generalizing s with
  | zero => cases h
  | succ n ih =>
      rw [attempts] at h
      split_ifs at h with haccepted
      · cases h
      · cases n with
        | zero => cases h
        | succ n =>
            rw [List.dropLast_cons_of_ne_nil (attempts_succ_ne_nil n _)] at h
            rcases List.mem_cons.1 h with rfl | hrest
            · exact Bool.eq_false_iff.2 haccepted
            · exact ih hrest

/-- What a move after a rejected attempt preserves holds where the attempts leave off. -/
theorem settled_induction {inv : σ → Prop} (hnext : ∀ s, inv s → accepts s = false → inv (next s))
    (n : ℕ) {s : σ} (h : inv s) : inv (settled accepts next n s) := by
  induction n generalizing s with
  | zero => exact h
  | succ n ih =>
      rw [settled]
      split_ifs with haccepted
      · exact h
      · exact ih (hnext s h (Bool.eq_false_iff.2 haccepted))

theorem acceptedWithin_succ {n : ℕ} {s : σ} (h : accepts s = false) :
    AcceptedWithin accepts next (n + 1) s ↔ AcceptedWithin accepts next n (next s) := by
  constructor
  · rintro ⟨i, hi, haccepted⟩
    cases i with
    | zero =>
        have hs : accepts s = true := haccepted
        rw [h] at hs
        cases hs
    | succ i => exact ⟨i, Nat.lt_of_succ_lt_succ hi, haccepted⟩
  · rintro ⟨i, hi, haccepted⟩
    exact ⟨i + 1, Nat.succ_lt_succ hi, haccepted⟩

/-- The attempts leave off at the last one when it is accepted. -/
theorem getLast?_attempts_of_accepted {n : ℕ} {s : σ} (h : AcceptedWithin accepts next n s) :
    (attempts accepts next n s).getLast? = some (settled accepts next n s) := by
  induction n generalizing s with
  | zero =>
      obtain ⟨i, hi, -⟩ := h
      cases hi
  | succ n ih =>
      rw [attempts, settled]
      split_ifs with haccepted
      · rfl
      · have hmore := ih ((acceptedWithin_succ (Bool.eq_false_iff.2 haccepted)).1 h)
        rw [List.getLast?_cons, hmore]
        rfl

/-- When nothing is accepted, every attempt is made and one more move. -/
theorem getLast?_attempts_of_not_accepted {n : ℕ} {s : σ}
    (h : ¬ AcceptedWithin accepts next (n + 1) s) :
    (attempts accepts next (n + 1) s).getLast? = some (next^[n] s) ∧
      settled accepts next (n + 1) s = next^[n + 1] s := by
  induction n generalizing s with
  | zero =>
      have hs : ¬ accepts s = true := fun hs => h ⟨0, Nat.one_pos, hs⟩
      rw [attempts, settled, if_neg hs, if_neg hs]
      exact ⟨rfl, rfl⟩
  | succ n ih =>
      have hs : ¬ accepts s = true := fun hs => h ⟨0, Nat.succ_pos _, hs⟩
      obtain ⟨hlast, hsettled⟩ := ih (mt (acceptedWithin_succ (Bool.eq_false_iff.2 hs)).2 h)
      rw [attempts, settled, if_neg hs, if_neg hs, List.getLast?_cons, hlast, hsettled]
      exact ⟨rfl, rfl⟩

/-- The attempts leave off where the last one was, as far as `view` shows, exactly when one
is accepted or the move after the last shows the same. -/
theorem settled_like_last_iff (view : σ → α) (n : ℕ) (s : σ) :
    (∃ last ∈ (attempts accepts next (n + 1) s).getLast?,
        view (settled accepts next (n + 1) s) = view last) ↔
      AcceptedWithin accepts next (n + 1) s ∨ view (next^[n + 1] s) = view (next^[n] s) := by
  by_cases h : AcceptedWithin accepts next (n + 1) s
  · exact ⟨fun _ => Or.inl h, fun _ => ⟨_, getLast?_attempts_of_accepted h, rfl⟩⟩
  · obtain ⟨hlast, hsettled⟩ := getLast?_attempts_of_not_accepted h
    rw [hlast, hsettled]
    constructor
    · rintro ⟨last, hmem, hview⟩
      obtain rfl := Option.some.inj hmem
      exact Or.inr hview
    · intro hview
      exact ⟨_, rfl, hview.resolve_left h⟩

end DealFinder.Math
