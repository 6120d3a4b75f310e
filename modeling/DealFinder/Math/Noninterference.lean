/-
# Noninterference

What an observer can see of a state is given by a relation between states that look
alike to it. A computation respects the relation when, from states that look alike, it
gives one answer and leaves states that look alike. It is hidden from the observer when
the state it leaves looks like the one it found.

In a machine whose kept inputs respect the relation and whose other inputs are hidden,
the observer cannot tell a run from the run without the other inputs (`observe_filter`).
-/

import DealFinder.Math.Machine
import DealFinder.Math.Transaction

namespace DealFinder.Math

universe u v w x

/-! ## Computations -/

namespace Effect

variable {σ : Type u} {ε : Type v} {α β : Type} {R : σ → σ → Prop}

/-- From states that look alike: one answer, and states that look alike. -/
def Respects (R : σ → σ → Prop) (x : Effect σ ε α) : Prop :=
  ∀ s s', R s s' → (x s).1 = (x s').1 ∧ R (x s).2 (x s').2

/-- A property of the state that a computation keeps, exception or not. -/
def Maintains (P : σ → Prop) (x : Effect σ ε α) : Prop := ∀ s, P s → P (x s).2

theorem respects_pure (a : α) : Respects R (pure a : Effect σ ε α) :=
  fun _ _ h => ⟨rfl, h⟩

theorem respects_raise (e : ε) : Respects R (raise e : Effect σ ε α) :=
  fun _ _ h => ⟨rfl, h⟩

theorem respects_read {f : σ → α} (hf : ∀ s s', R s s' → f s = f s') :
    Respects R (read f : Effect σ ε α) :=
  fun s s' h => ⟨congrArg Except.ok (hf s s' h), h⟩

theorem respects_query {f : σ → Except ε α} (hf : ∀ s s', R s s' → f s = f s') :
    Respects R (query f) :=
  fun s s' h => ⟨hf s s' h, h⟩

theorem respects_write {f : σ → α × σ}
    (hf : ∀ s s', R s s' → (f s).1 = (f s').1 ∧ R (f s).2 (f s').2) :
    Respects R (write f : Effect σ ε α) :=
  fun s s' h => ⟨congrArg Except.ok (hf s s' h).1, (hf s s' h).2⟩

theorem Respects.bind {first : Effect σ ε α} {next : α → Effect σ ε β}
    (hfirst : Respects R first) (hnext : ∀ a, Respects R (next a)) :
    Respects R (first >>= next) := by
  intro s s' h
  have hstep := hfirst s s' h
  cases hs : first s with
  | mk result after =>
      cases hs' : first s' with
      | mk result' after' =>
          rw [hs, hs'] at hstep
          obtain ⟨hresult, hafter⟩ := hstep
          simp only at hresult hafter
          subst hresult
          cases result with
          | ok a =>
              rw [bind_of_ok hs, bind_of_ok hs']
              exact hnext a after after' hafter
          | error e =>
              rw [bind_of_error hs, bind_of_error hs']
              exact ⟨rfl, hafter⟩

theorem Respects.returning {x : Effect σ ε α} (h : Respects R x) (f : α → β) :
    Respects R (x >>= fun a => pure (f a)) :=
  h.bind fun _ => respects_pure _

/-- An attempt whose exception does not depend on the state. -/
theorem respects_attempt {outcome : Except ε β} {f : σ → Except ε (α × σ)} {g : β → σ → α × σ}
    (hf : ∀ s s', R s s' → f s = outcome.map (fun b => g b s) ∧ f s' = outcome.map fun b => g b s')
    (hg : ∀ b s s', R s s' → (g b s).1 = (g b s').1 ∧ R (g b s).2 (g b s').2) :
    Respects R (attempt f) := by
  intro s s' h
  simp only [attempt, (hf s s' h).1, (hf s s' h).2]
  cases outcome with
  | error e => exact ⟨rfl, h⟩
  | ok b => exact ⟨congrArg Except.ok (hg b s s' h).1, (hg b s s' h).2⟩

/-- The same, where a normal answer also has a property. -/
def Yields (R : σ → σ → Prop) (Q : α → Prop) (x : Effect σ ε α) : Prop :=
  ∀ s s', R s s' → (x s).1 = (x s').1 ∧ R (x s).2 (x s').2 ∧ ∀ a, (x s).1 = .ok a → Q a

theorem Yields.respects {Q : α → Prop} {x : Effect σ ε α} (h : Yields R Q x) : Respects R x :=
  fun s s' hs => ⟨(h s s' hs).1, (h s s' hs).2.1⟩

theorem Respects.yields {x : Effect σ ε α} (h : Respects R x) : Yields R (fun _ => True) x :=
  fun s s' hs => ⟨(h s s' hs).1, (h s s' hs).2, fun _ _ => trivial⟩

theorem yields_pure {Q : α → Prop} {a : α} (h : Q a) : Yields R Q (pure a : Effect σ ε α) :=
  fun _ _ hs => ⟨rfl, hs, fun _ heq => Except.ok.inj heq ▸ h⟩

theorem yields_raise {Q : α → Prop} (e : ε) : Yields R Q (raise e : Effect σ ε α) :=
  fun _ _ hs => ⟨rfl, hs, fun _ heq => by cases heq⟩

/-- What comes next may rely on the answer. -/
theorem Yields.bind {P : α → Prop} {Q : β → Prop} {first : Effect σ ε α}
    {next : α → Effect σ ε β} (hfirst : Yields R P first) (hnext : ∀ a, P a → Yields R Q (next a)) :
    Yields R Q (first >>= next) := by
  intro s s' h
  have hstep := hfirst s s' h
  cases hs : first s with
  | mk result after =>
      cases hs' : first s' with
      | mk result' after' =>
          rw [hs, hs'] at hstep
          obtain ⟨hresult, hafter, hpost⟩ := hstep
          simp only at hresult hafter hpost
          subst hresult
          cases result with
          | ok a =>
              rw [bind_of_ok hs, bind_of_ok hs']
              exact hnext a (hpost a rfl) after after' hafter
          | error e =>
              rw [bind_of_error hs, bind_of_error hs']
              exact ⟨rfl, hafter, fun a heq => by cases heq⟩

variable {P : σ → Prop}

theorem maintains_pure (a : α) : Maintains P (pure a : Effect σ ε α) := fun _ => id

theorem maintains_raise (e : ε) : Maintains P (raise e : Effect σ ε α) := fun _ => id

theorem maintains_read (f : σ → α) : Maintains P (read f : Effect σ ε α) := fun _ => id

theorem maintains_query (f : σ → Except ε α) : Maintains P (query f) := fun _ => id

theorem maintains_write {f : σ → α × σ} (hf : ∀ s, P s → P (f s).2) :
    Maintains P (write f : Effect σ ε α) := hf

theorem Maintains.bind {first : Effect σ ε α} {next : α → Effect σ ε β}
    (hfirst : Maintains P first) (hnext : ∀ a, Maintains P (next a)) :
    Maintains P (first >>= next) := by
  intro s h
  have hafter := hfirst s h
  cases hs : first s with
  | mk result after =>
      rw [hs] at hafter
      cases result with
      | ok a =>
          rw [bind_of_ok hs]
          exact hnext a after hafter
      | error e =>
          rw [bind_of_error hs]
          exact hafter

theorem Maintains.returning {x : Effect σ ε α} (h : Maintains P x) (f : α → β) :
    Maintains P (x >>= fun a => pure (f a)) :=
  h.bind fun _ => maintains_pure _

theorem maintains_attempt {f : σ → Except ε (α × σ)}
    (hf : ∀ s a after, P s → f s = .ok (a, after) → P after) : Maintains P (attempt f) := by
  intro s h
  simp only [attempt]
  cases hs : f s with
  | error e => exact h
  | ok outcome => exact hf s outcome.1 outcome.2 h hs

end Effect

/-! ## Machines -/

namespace Machine

variable {σ : Type u} {ι : Type v} {ο : Type w} {α : Type x} {M : Machine σ ι ο}

/-- The observer records the same along a run and along the run of the kept inputs. -/
theorem observe_filter {R : σ → σ → Prop} {f : ι → ο → Option α} {keep : ι → Bool}
    (hkept : ∀ s s' input, R s s' → keep input = true →
      f input (M.step s input).1 = f input (M.step s' input).1 ∧
        R (M.step s input).2 (M.step s' input).2)
    (hhidden : ∀ s s' input, R s s' → keep input = false →
      f input (M.step s input).1 = none ∧ R (M.step s input).2 s')
    (inputs : List ι) {s s' : σ} (h : R s s') :
    M.observe f s inputs = M.observe f s' (inputs.filter keep) := by
  induction inputs generalizing s s' with
  | nil => rfl
  | cons input rest ih =>
      cases hkeep : keep input with
      | true =>
          obtain ⟨hanswer, hnext⟩ := hkept s s' input h hkeep
          rw [List.filter_cons_of_pos hkeep, observe, observe, hanswer, ih hnext]
      | false =>
          obtain ⟨hanswer, hnext⟩ := hhidden s s' input h hkeep
          rw [List.filter_cons_of_neg (by simp [hkeep]), observe, hanswer, ih hnext]
          rfl

end Machine

end DealFinder.Math
