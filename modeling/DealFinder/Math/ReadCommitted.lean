/-
# Transactions under READ COMMITTED

A transaction is a script: statements, one after the other, and locks it waits for. A
statement sees what was committed before it starts, under the script's own writes. What
it writes is a patch, which joins those, together with the locks on the rows it touches.
All locks are held until the transaction ends: a commit applies the script's own writes
to what is committed by then.

A server runs any number of scripts, each in a thread, a statement at a time and in any
order. A thread that must wait for a lock takes no step, and any transaction may be
aborted at any time. A script that runs alone does what the effect of its statements in
order does (`run_solo`).
-/

import DealFinder.Math.Machine
import DealFinder.Math.Transaction
import Mathlib.Logic.Function.Basic

namespace DealFinder.Math

/-! ## Scripts -/

/-- What a statement writes, and the locks this takes. -/
structure Patch (σ κ : Type) where
  locks : List κ
  change : σ → σ

/-- Nothing written. -/
def Patch.none {σ κ : Type} : Patch σ κ := ⟨[], id⟩

/-- A transaction on a database `σ`, with exceptions `ε` and locks `κ`. -/
inductive Script (σ ε κ α : Type) : Type 1
  /-- Commit, and return. -/
  | done (a : α)
  /-- Roll back, and raise. -/
  | raise (e : ε)
  /-- Wait for a lock. -/
  | lock (key : κ) (next : Script σ ε κ α)
  /-- Execute a statement. -/
  | exec {β : Type} (statement : σ → Except ε (β × Patch σ κ)) (next : β → Script σ ε κ α)

namespace Script

variable {σ ε κ α β : Type}

/-- One script after another, in one transaction. -/
def bind : Script σ ε κ α → (α → Script σ ε κ β) → Script σ ε κ β
  | .done a, f => f a
  | .raise e, _ => .raise e
  | .lock key next, f => .lock key (next.bind f)
  | .exec statement next, f => .exec statement fun b => (next b).bind f

instance : Monad (Script σ ε κ) where
  pure := .done
  bind := .bind

/-- A statement that reads. -/
def read (f : σ → α) : Script σ ε κ α := .exec (fun s => .ok (f s, .none)) .done

/-- A statement that reads, or raises. -/
def query (f : σ → Except ε α) : Script σ ε κ α :=
  .exec (fun s => (f s).map fun a => (a, .none)) .done

/-- A statement that writes, or raises. -/
def write (f : σ → Except ε (α × Patch σ κ)) : Script σ ε κ α := .exec f .done

/-- Wait for a lock. -/
def acquire (key : κ) : Script σ ε κ Unit := .lock key (.done ())

/-- Three scripts in a row. -/
theorem bind_assoc {γ : Type} (x : Script σ ε κ α) (f : α → Script σ ε κ β)
    (g : β → Script σ ε κ γ) : x >>= f >>= g = x >>= fun a => f a >>= g := by
  induction x with
  | done a => rfl
  | raise e => rfl
  | lock key next ih => exact congrArg (Script.lock key) ih
  | exec statement next ih => exact congrArg (Script.exec statement) (funext ih)

/-- The effect of a statement that nothing comes between. -/
def apply (statement : σ → Except ε (β × Patch σ κ)) : Effect σ ε β :=
  Effect.attempt fun s => (statement s).map fun outcome => (outcome.1, outcome.2.change s)

/-- The effect of a script that nothing comes between. -/
def alone : Script σ ε κ α → Effect σ ε α
  | .done a => pure a
  | .raise e => Effect.raise e
  | .lock _ next => next.alone
  | .exec statement next => apply statement >>= fun b => (next b).alone

theorem apply_of_ok {statement : σ → Except ε (β × Patch σ κ)} {s : σ} {b : β} {patch : Patch σ κ}
    (h : statement s = .ok (b, patch)) : apply statement s = (.ok b, patch.change s) := by
  simp only [apply, Effect.attempt, h, Except.map]

theorem apply_of_error {statement : σ → Except ε (β × Patch σ κ)} {s : σ} {e : ε}
    (h : statement s = .error e) : apply statement s = (.error e, s) := by
  simp only [apply, Effect.attempt, h, Except.map]

theorem alone_read (f : σ → α) : (read f : Script σ ε κ α).alone = Effect.read f := rfl

/-- A statement that writes has, alone, the effect of an attempt. -/
theorem alone_write {f : σ → Except ε (α × Patch σ κ)} {g : σ → Except ε (α × σ)}
    (h : ∀ s, g s = (f s).map fun outcome => (outcome.1, outcome.2.change s)) :
    (write f).alone = Effect.attempt g := by
  funext s
  have hg : apply f = Effect.attempt g := congrArg Effect.attempt (funext fun s => (h s).symm)
  show (apply f >>= fun a => pure a) s = Effect.attempt g s
  rw [hg]
  cases hrun : Effect.attempt g s with
  | mk result after =>
      cases result with
      | error e => exact Effect.bind_of_error hrun
      | ok a => exact Effect.bind_of_ok hrun

/-- A statement that writes and never raises. -/
theorem alone_write_ok {f : σ → Except ε (α × Patch σ κ)} {g : σ → α × σ}
    (h : ∀ s, ∃ patch, f s = .ok ((g s).1, patch) ∧ patch.change s = (g s).2) :
    (write f).alone = Effect.write g := by
  refine (alone_write (g := fun s => .ok (g s)) fun s => ?_).trans rfl
  obtain ⟨patch, hf, hpatch⟩ := h s
  rw [hf, Except.map, hpatch]

theorem alone_query (f : σ → Except ε α) : (query f : Script σ ε κ α).alone = Effect.query f := by
  have hread : ∀ s, ((f s).map fun a => (a, s)) =
      ((f s).map fun a => (a, (Patch.none : Patch σ κ))).map fun outcome =>
        (outcome.1, outcome.2.change s) := by
    intro s
    cases f s <;> rfl
  refine (alone_write hread).trans (funext fun s => ?_)
  rw [Effect.attempt, Effect.query]
  cases f s <;> rfl

/-- Alone, too, one script runs after another. -/
theorem alone_bind (x : Script σ ε κ α) (f : α → Script σ ε κ β) :
    (x >>= f).alone = x.alone >>= fun a => (f a).alone := by
  induction x with
  | done a => rfl
  | raise e => rfl
  | lock key next ih => exact ih
  | exec statement next ih =>
      funext s
      show (apply statement >>= fun b => (next b >>= f).alone) s =
        ((apply statement >>= fun b => (next b).alone) >>= fun a => (f a).alone) s
      cases hrun : statement s with
      | error e =>
          rw [Effect.bind_of_error (apply_of_error hrun),
            Effect.bind_of_error (Effect.bind_of_error (apply_of_error hrun))]
      | ok outcome =>
          rw [Effect.bind_of_ok (apply_of_ok hrun), ih]
          cases hmiddle : (next outcome.1).alone (outcome.2.change s) with
          | mk result after =>
              have hfirst : (apply statement >>= fun b => (next b).alone) s = (result, after) :=
                (Effect.bind_of_ok (apply_of_ok hrun)).trans hmiddle
              cases result with
              | error e => rw [Effect.bind_of_error hmiddle, Effect.bind_of_error hfirst]
              | ok a => rw [Effect.bind_of_ok hmiddle, Effect.bind_of_ok hfirst]

end Script

/-! ## The server -/

section Server

variable {σ ε κ α ι τ : Type}

/-- A transaction that runs: the call it serves, the script still to run, and its own writes. -/
structure Running (σ ε κ α ι : Type) where
  call : ι
  script : Script σ ε κ α
  own : σ → σ

/-- What is committed, who holds each lock, and what each thread runs. -/
structure Server (σ ε κ α ι τ : Type) where
  committed : σ
  locks : κ → Option τ
  running : τ → Option (Running σ ε κ α ι)

namespace Server

/-- What an event lets a thread do. -/
inductive Action (ι : Type)
  /-- Begin the transaction of a call. -/
  | begin (call : ι)
  /-- Take the next step. -/
  | next
  /-- Be aborted. -/
  | abort

/-- A thread takes a step. -/
structure Event (ι τ : Type) where
  thread : τ
  action : Action ι

/-- What the world sees of a step. -/
inductive Signal (ε α ι : Type)
  | silent
  | returned (call : ι) (a : α)
  | raised (call : ι) (e : ε)
  | aborted (call : ι)

variable [DecidableEq κ] [DecidableEq τ]

/-- The locks are free for a thread. -/
def Free (s : Server σ ε κ α ι τ) (thread : τ) (keys : List κ) : Prop :=
  ∀ key ∈ keys, s.locks key = none ∨ s.locks key = some thread

instance (s : Server σ ε κ α ι τ) (thread : τ) (keys : List κ) : Decidable (s.Free thread keys) :=
  inferInstanceAs (Decidable (∀ key ∈ keys, s.locks key = none ∨ s.locks key = some thread))

/-- A thread goes on, and takes locks. -/
def goOn (s : Server σ ε κ α ι τ) (thread : τ) (keys : List κ) (r : Running σ ε κ α ι) :
    Server σ ε κ α ι τ where
  committed := s.committed
  locks key := if key ∈ keys then some thread else s.locks key
  running := Function.update s.running thread (some r)

/-- A thread ends its transaction, and gives its locks back. -/
def finish (s : Server σ ε κ α ι τ) (thread : τ) (committed : σ) : Server σ ε κ α ι τ where
  committed := committed
  locks key := if s.locks key = some thread then none else s.locks key
  running := Function.update s.running thread none

variable (code : ι → Script σ ε κ α)

/-- One step of a thread. -/
def step (s : Server σ ε κ α ι τ) (e : Event ι τ) : Signal ε α ι × Server σ ε κ α ι τ :=
  match e.action, s.running e.thread with
  | .begin call, none => (.silent, s.goOn e.thread [] ⟨call, code call, id⟩)
  | .next, some ⟨call, .done a, own⟩ => (.returned call a, s.finish e.thread (own s.committed))
  | .next, some ⟨call, .raise err, _⟩ => (.raised call err, s.finish e.thread s.committed)
  | .next, some ⟨call, .lock key next, own⟩ =>
      if s.Free e.thread [key] then (.silent, s.goOn e.thread [key] ⟨call, next, own⟩)
      else (.silent, s)
  | .next, some ⟨call, .exec statement next, own⟩ =>
      match statement (own s.committed) with
      | .error err => (.silent, s.goOn e.thread [] ⟨call, .raise err, own⟩)
      | .ok (b, patch) =>
          if s.Free e.thread patch.locks then
            (.silent, s.goOn e.thread patch.locks ⟨call, next b, patch.change ∘ own⟩)
          else (.silent, s)
  | .abort, some r => (.aborted r.call, s.finish e.thread s.committed)
  | _, _ => (.silent, s)

/-- The server as a machine driven by a schedule. -/
def machine : Machine (Server σ ε κ α ι τ) (Event ι τ) (Signal ε α ι) := ⟨step code⟩

/-! ## What a step does -/

/-- The steps that a server allows, by name. -/
inductive Taken (s : Server σ ε κ α ι τ) (thread : τ) :
    Action ι → Signal ε α ι → Server σ ε κ α ι τ → Prop
  | begin {call} (hidle : s.running thread = none) :
      Taken s thread (.begin call) .silent (s.goOn thread [] ⟨call, code call, id⟩)
  | acquire {call key next own} (hrunning : s.running thread = some ⟨call, .lock key next, own⟩)
      (hfree : s.Free thread [key]) :
      Taken s thread .next .silent (s.goOn thread [key] ⟨call, next, own⟩)
  | exec {call} {β : Type} {statement : σ → Except ε (β × Patch σ κ)} {next own b patch}
      (hrunning : s.running thread = some ⟨call, .exec statement next, own⟩)
      (hstatement : statement (own s.committed) = .ok (b, patch))
      (hfree : s.Free thread patch.locks) :
      Taken s thread .next .silent (s.goOn thread patch.locks ⟨call, next b, patch.change ∘ own⟩)
  | fail {call} {β : Type} {statement : σ → Except ε (β × Patch σ κ)} {next own e}
      (hrunning : s.running thread = some ⟨call, .exec statement next, own⟩)
      (hstatement : statement (own s.committed) = .error e) :
      Taken s thread .next .silent (s.goOn thread [] ⟨call, .raise e, own⟩)
  | commit {call a own} (hrunning : s.running thread = some ⟨call, .done a, own⟩) :
      Taken s thread .next (.returned call a) (s.finish thread (own s.committed))
  | rollback {call e own} (hrunning : s.running thread = some ⟨call, .raise e, own⟩) :
      Taken s thread .next (.raised call e) (s.finish thread s.committed)
  | abort {r} (hrunning : s.running thread = some r) :
      Taken s thread .abort (.aborted r.call) (s.finish thread s.committed)

/-- A step is one of these, or changes nothing. -/
theorem step_cases (s : Server σ ε κ α ι τ) (e : Event ι τ) :
    s.step code e = (.silent, s) ∨
      Taken code s e.thread e.action (s.step code e).1 (s.step code e).2 := by
  obtain ⟨thread, action⟩ := e
  cases action with
  | begin call =>
      cases hrunning : s.running thread with
      | none =>
          simp only [step, hrunning]
          exact Or.inr (.begin hrunning)
      | some r => exact Or.inl (by simp only [step, hrunning])
  | abort =>
      cases hrunning : s.running thread with
      | none => exact Or.inl (by simp only [step, hrunning])
      | some r =>
          simp only [step, hrunning]
          exact Or.inr (.abort hrunning)
  | next =>
      cases hrunning : s.running thread with
      | none => exact Or.inl (by simp only [step, hrunning])
      | some r =>
          obtain ⟨call, script, own⟩ := r
          cases script with
          | done a =>
              simp only [step, hrunning]
              exact Or.inr (.commit hrunning)
          | raise e =>
              simp only [step, hrunning]
              exact Or.inr (.rollback hrunning)
          | lock key next =>
              by_cases hfree : s.Free thread [key]
              · simp only [step, hrunning, if_pos hfree]
                exact Or.inr (.acquire hrunning hfree)
              · exact Or.inl (by simp only [step, hrunning, if_neg hfree])
          | exec statement next =>
              cases hstatement : statement (own s.committed) with
              | error e =>
                  simp only [step, hrunning, hstatement]
                  exact Or.inr (.fail hrunning hstatement)
              | ok outcome =>
                  by_cases hfree : s.Free thread outcome.2.locks
                  · simp only [step, hrunning, hstatement, if_pos hfree]
                    exact Or.inr (.exec hrunning hstatement hfree)
                  · exact Or.inl (by simp only [step, hrunning, hstatement, if_neg hfree])

section Frame

variable {s : Server σ ε κ α ι τ} {thread other : τ}

theorem running_goOn_self (keys : List κ) (r : Running σ ε κ α ι) :
    (s.goOn thread keys r).running thread = some r := Function.update_self ..

theorem running_goOn_of_ne (hne : other ≠ thread) (keys : List κ) (r : Running σ ε κ α ι) :
    (s.goOn thread keys r).running other = s.running other := Function.update_of_ne hne ..

omit [DecidableEq κ] in
theorem running_finish_self (committed : σ) : (s.finish thread committed).running thread = none :=
  Function.update_self ..

omit [DecidableEq κ] in
theorem running_finish_of_ne (hne : other ≠ thread) (committed : σ) :
    (s.finish thread committed).running other = s.running other := Function.update_of_ne hne ..

/-- A thread that goes on has the locks it takes. -/
theorem locks_goOn {keys : List κ} {key : κ} (hkey : key ∈ keys) (r : Running σ ε κ α ι) :
    (s.goOn thread keys r).locks key = some thread := if_pos hkey

/-- Nobody loses a lock to a thread that goes on. -/
theorem locks_goOn_of_free {keys : List κ} (hfree : s.Free thread keys) {key : κ}
    (hheld : s.locks key = some other) (r : Running σ ε κ α ι) :
    (s.goOn thread keys r).locks key = some other := by
  by_cases hkey : key ∈ keys
  · rw [locks_goOn hkey]
    rcases hfree key hkey with hnone | hown
    · exact absurd (hheld.symm.trans hnone) (Option.some_ne_none other)
    · exact hown.symm.trans hheld
  · exact (if_neg hkey).trans hheld

omit [DecidableEq κ] in
theorem locks_finish_of_ne (hne : other ≠ thread) {key : κ} (hheld : s.locks key = some other)
    (committed : σ) : (s.finish thread committed).locks key = some other := by
  refine (if_neg fun hthread => hne ?_).trans hheld
  exact Option.some.inj (hheld.symm.trans hthread)

/-- A step leaves the other threads where they are. -/
theorem Taken.running_of_ne {code : ι → Script σ ε κ α} {action : Action ι}
    {signal : Signal ε α ι} {s' : Server σ ε κ α ι τ} (h : Taken code s thread action signal s')
    (hne : other ≠ thread) : s'.running other = s.running other := by
  cases h with
  | begin | acquire | exec | fail => exact running_goOn_of_ne hne _ _
  | commit | rollback | abort => exact running_finish_of_ne hne _

end Frame

/-! ## A script alone -/

/-- How a transaction ends. -/
def Signal.ended (call : ι) : Except ε α → Signal ε α ι
  | .ok a => .returned call a
  | .error e => .raised call e

/-- What a transaction leaves: its effect after a normal end, else what was there. -/
def left (before : σ) : Except ε α × σ → σ
  | (.ok _, after) => after
  | (.error _, _) => before

/-- The next step of a thread. -/
def next (thread : τ) : Event ι τ := ⟨thread, .next⟩

section Solo

variable {code} {thread : τ}

omit [DecidableEq κ] in
/-- A thread that holds every lock that is held leaves none. -/
theorem finish_of_alone {s : Server σ ε κ α ι τ}
    (hlocks : ∀ key, s.locks key = none ∨ s.locks key = some thread) (committed : σ) :
    s.finish thread committed =
      ⟨committed, fun _ => none, Function.update s.running thread none⟩ := by
  have hnone : (fun key => if s.locks key = some thread then none else s.locks key) =
      fun _ => none := by
    funext key
    rcases hlocks key with hnone | hown
    · rw [hnone, ite_self]
    · exact if_pos hown
  rw [finish, hnone]

theorem alone_goOn {s : Server σ ε κ α ι τ}
    (hlocks : ∀ key, s.locks key = none ∨ s.locks key = some thread) (keys : List κ)
    (r : Running σ ε κ α ι) (key : κ) :
    (s.goOn thread keys r).locks key = none ∨ (s.goOn thread keys r).locks key = some thread := by
  by_cases hkey : key ∈ keys
  · exact Or.inr (locks_goOn hkey r)
  · exact (hlocks key).imp (if_neg hkey).trans (if_neg hkey).trans

/-- After some steps of its own, the next one ends the transaction of a thread. -/
def Ends (code : ι → Script σ ε κ α) (s : Server σ ε κ α ι τ) (thread : τ) (call : ι)
    (outcome : Except ε α × σ) : Prop :=
  ∃ n, ((machine code).run s (List.replicate n (next thread))).step code (next thread) =
    (.ended call outcome.1,
      ⟨left s.committed outcome, fun _ => none, Function.update s.running thread none⟩)

/-- A step less. -/
theorem Ends.of_goOn {s : Server σ ε κ α ι τ} {call : ι} {outcome : Except ε α × σ}
    {keys : List κ} {r : Running σ ε κ α ι}
    (hstep : s.step code (next thread) = (.silent, s.goOn thread keys r))
    (h : Ends code (s.goOn thread keys r) thread call outcome) :
    Ends code s thread call outcome := by
  obtain ⟨n, hrun⟩ := h
  refine ⟨n + 1, ?_⟩
  rw [show (s.goOn thread keys r).running = Function.update s.running thread (some r) from rfl,
    Function.update_idem] at hrun
  rw [List.replicate_succ, Machine.run_cons, show (machine code).step s (next thread) =
    s.step code (next thread) from rfl, hstep]
  exact hrun

/-- A script whose locks are free ends, and as it does alone. -/
theorem ends_alone (script : Script σ ε κ α) (s : Server σ ε κ α ι τ) (call : ι) (own : σ → σ)
    (hrunning : s.running thread = some ⟨call, script, own⟩)
    (hlocks : ∀ key, s.locks key = none ∨ s.locks key = some thread) :
    Ends code s thread call (script.alone (own s.committed)) := by
  induction script generalizing s own with
  | done a =>
      refine ⟨0, ?_⟩
      simp only [List.replicate_zero, Machine.run_nil, step, next, hrunning]
      rw [finish_of_alone hlocks]
      rfl
  | raise e =>
      refine ⟨0, ?_⟩
      simp only [List.replicate_zero, Machine.run_nil, step, next, hrunning]
      rw [finish_of_alone hlocks]
      rfl
  | lock key rest ih =>
      have hstep : s.step code (next thread) =
          (.silent, s.goOn thread [key] ⟨call, rest, own⟩) := by
        simp only [step, next, hrunning]
        exact if_pos fun key _ => hlocks key
      exact .of_goOn hstep (ih _ own (running_goOn_self _ _) (alone_goOn hlocks _ _))
  | exec statement rest ih =>
      cases hstatement : statement (own s.committed) with
      | error e =>
          have hstep : s.step code (next thread) =
              (.silent, s.goOn thread [] ⟨call, .raise e, own⟩) := by
            simp only [step, next, hrunning, hstatement]
          rw [Script.alone, Effect.bind_of_error (Script.apply_of_error hstatement)]
          refine .of_goOn hstep ⟨0, ?_⟩
          simp only [List.replicate_zero, Machine.run_nil, step, next, running_goOn_self]
          rw [finish_of_alone (alone_goOn hlocks _ _)]
          rfl
      | ok outcome =>
          have hstep : s.step code (next thread) = (.silent, s.goOn thread outcome.2.locks
              ⟨call, rest outcome.1, outcome.2.change ∘ own⟩) := by
            simp only [step, next, hrunning, hstatement]
            exact if_pos fun key _ => hlocks key
          rw [Script.alone, Effect.bind_of_ok (Script.apply_of_ok hstatement)]
          exact .of_goOn hstep
            (ih outcome.1 _ (outcome.2.change ∘ own) (running_goOn_self _ _)
              (alone_goOn hlocks _ _))

/-- **A transaction alone.** While no other thread moves and no lock is held, a call returns
what its script alone returns, and commits what that leaves. -/
theorem run_solo {s : Server σ ε κ α ι τ} (hidle : s.running thread = none)
    (hlocks : ∀ key, s.locks key = none) (call : ι) :
    ∃ n, (machine code).answerAfter s
        (⟨thread, .begin call⟩ :: List.replicate n (next thread)) (next thread) =
          .ended call ((code call).alone s.committed).1 ∧
      (machine code).run s (⟨thread, .begin call⟩ :: List.replicate (n + 1) (next thread)) =
        { s with committed := left s.committed ((code call).alone s.committed) } := by
  have hbegin : s.step code ⟨thread, .begin call⟩ =
      (.silent, s.goOn thread [] ⟨call, code call, id⟩) := by
    simp only [step, hidle]
  obtain ⟨n, hrun⟩ := @ends_alone _ _ _ _ _ _ _ _ code thread (code call)
    (s.goOn thread [] ⟨call, code call, id⟩) call id (running_goOn_self _ _)
    (alone_goOn (fun key => Or.inl (hlocks key)) _ _)
  have hlocked : (fun _ => none) = s.locks := funext fun key => (hlocks key).symm
  have hback : Function.update (s.goOn thread [] ⟨call, code call, id⟩).running thread none =
      s.running := by
    rw [goOn, Function.update_idem, ← hidle, Function.update_eq_self]
  have hsecond : (machine code).run s (⟨thread, .begin call⟩ :: List.replicate n (next thread)) =
      (machine code).run (s.goOn thread [] ⟨call, code call, id⟩)
        (List.replicate n (next thread)) := by
    rw [Machine.run_cons, show (machine code).step s ⟨thread, .begin call⟩ =
      s.step code ⟨thread, .begin call⟩ from rfl, hbegin]
  refine ⟨n, ?_, ?_⟩
  · rw [Machine.answerAfter, hsecond]
    exact congrArg Prod.fst hrun
  · rw [List.replicate_succ', ← List.cons_append, Machine.run_concat, hsecond]
    apply (congrArg Prod.snd hrun).trans
    rw [hback, hlocked]
    rfl

end Solo

end Server

end Server

end DealFinder.Math
