/-
# Deterministic reactive machines

A machine answers each input and moves to a next state. A run feeds it a list
of inputs. The rules below are the ones a verification needs: a property of
the state together with the inputs consumed so far that one step preserves
holds after every run, and it may assume of each step whatever a guard promises
about the state the step starts from.
-/

import Mathlib.Data.List.Basic
import Mathlib.Data.List.Induction
import Mathlib.Order.Basic

namespace DealFinder.Math

universe u v w x

/-- A deterministic machine with states `σ`, inputs `ι` and answers `ο`. -/
structure Machine (σ : Type u) (ι : Type v) (ο : Type w) where
  /-- The answer to an input, and the state it leaves. -/
  step : σ → ι → ο × σ

namespace Machine

variable {σ : Type u} {ι : Type v} {ο : Type w} {α : Type x}
/-- The state after a list of inputs. -/
def run (M : Machine σ ι ο) : σ → List ι → σ
  | s, [] => s
  | s, input :: rest => M.run (M.step s input).2 rest

/-- What an observer of inputs and answers records along a run. -/
def observe (M : Machine σ ι ο) (f : ι → ο → Option α) : σ → List ι → List α
  | _, [] => []
  | s, input :: rest =>
      (f input (M.step s input).1).toList ++ M.observe f (M.step s input).2 rest

/-- What is recorded of the state and the input of each step of a run. -/
def collect (M : Machine σ ι ο) (f : σ → ι → List α) : σ → List ι → List α
  | _, [] => []
  | s, input :: rest => f s input ++ M.collect f (M.step s input).2 rest

variable (M : Machine σ ι ο)

/-- The answer given to `input` when it follows the inputs `past`. -/
def answerAfter (s : σ) (past : List ι) (input : ι) : ο :=
  (M.step (M.run s past) input).1

/-- Every step of the run starts from a state and input that pass the guard. -/
def Along (guard : σ → ι → Prop) (s : σ) (inputs : List ι) : Prop :=
  ∀ past input rest, inputs = past ++ input :: rest → guard (M.run s past) input

@[simp]
theorem run_nil (s : σ) : M.run s [] = s := rfl

@[simp]
theorem run_cons (s : σ) (input : ι) (rest : List ι) :
    M.run s (input :: rest) = M.run (M.step s input).2 rest := rfl

theorem run_append (s : σ) (first second : List ι) :
    M.run s (first ++ second) = M.run (M.run s first) second := by
  induction first generalizing s with
  | nil => rfl
  | cons input rest ih => exact ih _

theorem run_concat (s : σ) (past : List ι) (input : ι) :
    M.run s (past ++ [input]) = (M.step (M.run s past) input).2 := by
  rw [run_append]
  rfl

theorem observe_append (f : ι → ο → Option α) (s : σ) (first second : List ι) :
    M.observe f s (first ++ second) =
      M.observe f s first ++ M.observe f (M.run s first) second := by
  induction first generalizing s with
  | nil => rfl
  | cons input rest ih => simp [observe, ih]

theorem observe_concat (f : ι → ο → Option α) (s : σ) (past : List ι) (input : ι) :
    M.observe f s (past ++ [input]) =
      M.observe f s past ++ (f input (M.answerAfter s past input)).toList := by
  simp [observe_append, observe, answerAfter]

theorem collect_concat (f : σ → ι → List α) (s : σ) (past : List ι) (input : ι) :
    M.collect f s (past ++ [input]) = M.collect f s past ++ f (M.run s past) input := by
  induction past generalizing s with
  | nil => exact List.append_nil (f s input)
  | cons first rest ih => rw [List.cons_append, collect, ih, collect, run_cons, List.append_assoc]

variable {M}

theorem Along.left {guard : σ → ι → Prop} {s : σ} {first second : List ι}
    (h : M.Along guard s (first ++ second)) : M.Along guard s first := by
  intro past input rest heq
  exact h past input (rest ++ second) (by simp [heq])

theorem Along.last {guard : σ → ι → Prop} {s : σ} {past : List ι} {input : ι}
    (h : M.Along guard s (past ++ [input])) : guard (M.run s past) input :=
  h past input [] rfl

theorem along_concat {guard : σ → ι → Prop} {s : σ} {past : List ι} {input : ι} :
    M.Along guard s (past ++ [input]) ↔ M.Along guard s past ∧ guard (M.run s past) input := by
  constructor
  · exact fun h => ⟨h.left, h.last⟩
  · intro h first next rest heq
    rcases List.eq_nil_or_concat' rest with rfl | ⟨init, last, rfl⟩
    · obtain ⟨rfl, hnext⟩ := List.append_inj' heq rfl
      rw [← (List.cons.inj hnext).1]
      exact h.2
    · rw [← List.cons_append, ← List.append_assoc] at heq
      exact h.1 first next init (List.append_inj' heq rfl).1

theorem Along.mono {guard weaker : σ → ι → Prop} {s : σ} {inputs : List ι}
    (himp : ∀ s input, guard s input → weaker s input) (h : M.Along guard s inputs) :
    M.Along weaker s inputs :=
  fun past input rest heq => himp _ _ (h past input rest heq)

@[simp]
theorem along_nil (guard : σ → ι → Prop) (s : σ) : M.Along guard s [] := by
  intro past input rest heq
  simp at heq

theorem along_cons {guard : σ → ι → Prop} {s : σ} {input : ι} {rest : List ι} :
    M.Along guard s (input :: rest) ↔
      guard s input ∧ M.Along guard (M.step s input).2 rest := by
  constructor
  · intro h
    exact ⟨h [] input rest rfl,
      fun past next tail heq => h (input :: past) next tail (by simp [heq])⟩
  · intro h past next tail heq
    cases past with
    | nil =>
        obtain ⟨rfl, rfl⟩ := List.cons.inj heq
        exact h.1
    | cons first past =>
        obtain ⟨rfl, hrest⟩ := List.cons.inj heq
        exact h.2 past next tail hrest

/-- A guard that can be tested can be tested along a run. -/
instance decidableAlong {guard : σ → ι → Prop} [∀ s input, Decidable (guard s input)] :
    ∀ (s : σ) (inputs : List ι), Decidable (M.Along guard s inputs)
  | s, [] => isTrue (along_nil guard s)
  | s, input :: rest =>
      haveI : Decidable (M.Along guard (M.step s input).2 rest) := decidableAlong _ rest
      decidable_of_iff (guard s input ∧ M.Along guard (M.step s input).2 rest) along_cons.symm

/-- **The history invariant rule.** A property of the inputs consumed and the
state they lead to holds after every guarded run once a step preserves it. -/
theorem run_induction {guard : σ → ι → Prop} {s : σ} {P : List ι → σ → Prop}
    (hinit : P [] s)
    (hstep : ∀ past input, P past (M.run s past) → guard (M.run s past) input →
      P (past ++ [input]) (M.step (M.run s past) input).2)
    (inputs : List ι) (hguard : M.Along guard s inputs) : P inputs (M.run s inputs) := by
  induction inputs using List.reverseRecOn with
  | nil => exact hinit
  | append_singleton past input ih =>
      rw [run_concat]
      exact hstep past input (ih hguard.left) hguard.last

/-- The same without a guard. -/
theorem run_history {s : σ} {P : List ι → σ → Prop} (hinit : P [] s)
    (hstep : ∀ past input, P past (M.run s past) →
      P (past ++ [input]) (M.step (M.run s past) input).2)
    (inputs : List ι) : P inputs (M.run s inputs) := by
  have hguard : M.Along (fun _ _ => True) s inputs := fun _ _ _ _ => trivial
  exact run_induction hinit (fun past input hpast _ => hstep past input hpast) inputs hguard

end Machine

end DealFinder.Math
