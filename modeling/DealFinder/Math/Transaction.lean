/-
# Database sessions

A connection sees a committed state and, when it has opened a transaction, its
own uncommitted work. The first statement outside a transaction opens one. A
transaction block entered while one is open is only a savepoint: leaving it
commits nothing. Leaving the session commits after a normal end and rolls back
after an exception.

A session may also touch a world outside the database, which no rollback undoes.
-/

import Mathlib.Logic.Basic

namespace DealFinder.Math

universe u v w

/-! ## Effects that may raise -/

/-- A computation on a state. An exception keeps what was done before it. -/
def Effect (σ : Type u) (ε : Type v) (α : Type) := σ → Except ε α × σ

namespace Effect

variable {σ : Type u} {ε ε' : Type v} {α β : Type}

instance : Monad (Effect σ ε) where
  pure a := fun s => (.ok a, s)
  bind x f := fun s =>
    match x s with
    | (.ok a, s) => f a s
    | (.error e, s) => (.error e, s)

/-- `except ... raise ...`: raise another exception instead. -/
def mapError (f : ε → ε') (x : Effect σ ε α) : Effect σ ε' α := fun s =>
  ((x s).1.mapError f, (x s).2)

/-- Read the state. -/
def read (f : σ → α) : Effect σ ε α := fun s => (.ok (f s), s)

/-- Read the state, or raise. -/
def query (f : σ → Except ε α) : Effect σ ε α := fun s => (f s, s)

/-- Change the state. -/
def write (f : σ → α × σ) : Effect σ ε α := fun s => (.ok (f s).1, (f s).2)

/-- Change the state, or raise and change nothing. -/
def attempt (f : σ → Except ε (α × σ)) : Effect σ ε α := fun s =>
  match f s with
  | .ok (a, s') => (.ok a, s')
  | .error e => (.error e, s)

/-- `raise`. -/
def raise (e : ε) : Effect σ ε α := fun s => (.error e, s)

/-- A mapped outcome that is normal comes from one that is. -/
theorem exists_of_map_ok {x : Except ε α} {f : α → β} {b : β} (h : x.map f = .ok b) :
    ∃ a, x = .ok a ∧ f a = b := by
  cases x with
  | error e => cases h
  | ok a => exact ⟨a, rfl, Except.ok.inj h⟩

/-- A computation goes on where its first part ended normally. -/
theorem bind_of_ok {first : Effect σ ε α} {next : α → Effect σ ε β} {s s' : σ} {a : α}
    (h : first s = (.ok a, s')) : (first >>= next) s = next a s' := by
  show (match first s with | (.ok a, s) => next a s | (.error e, s) => (.error e, s)) = _
  rw [h]

/-- A computation goes on with what it read. -/
theorem read_bind (f : σ → α) (next : α → Effect σ ε β) (s : σ) :
    (read f >>= next) s = next (f s) s := rfl

theorem attempt_of_ok {f : σ → Except ε (α × σ)} {s : σ} {outcome : α × σ}
    (h : f s = .ok outcome) : attempt f s = (.ok outcome.1, outcome.2) := by
  simp only [attempt, h]

theorem attempt_of_error {f : σ → Except ε (α × σ)} {s : σ} {e : ε} (h : f s = .error e) :
    attempt f s = (.error e, s) := by
  simp only [attempt, h]

/-- An exception ends a computation. -/
theorem bind_of_error {first : Effect σ ε α} {next : α → Effect σ ε β} {s s' : σ} {e : ε}
    (h : first s = (.error e, s')) : (first >>= next) s = (.error e, s') := by
  show (match first s with | (.ok a, s) => next a s | (.error e, s) => (.error e, s)) = _
  rw [h]

/-- A computation that ended normally did so in both parts. -/
theorem exists_of_bind_ok {first : Effect σ ε α} {next : α → Effect σ ε β} {s s' : σ} {b : β}
    (h : (first >>= next) s = (.ok b, s')) :
    ∃ a middle, first s = (.ok a, middle) ∧ next a middle = (.ok b, s') := by
  cases hfirst : first s with
  | mk result middle =>
      cases result with
      | error e =>
          rw [bind_of_error hfirst] at h
          cases h
      | ok a => exact ⟨a, middle, rfl, (bind_of_ok hfirst).symm.trans h⟩

/-- How a computation may end, from any state: normally with `P`, or in an exception with `Q`. -/
def Ends (P : α → Prop) (Q : ε → Prop) (x : Effect σ ε α) : Prop :=
  ∀ s, match (x s).1 with
    | .ok a => P a
    | .error e => Q e

variable {P : α → Prop} {Q : ε → Prop}

theorem Ends.mono {P' : α → Prop} {Q' : ε → Prop} {x : Effect σ ε α} (h : Ends P Q x)
    (hP : ∀ a, P a → P' a) (hQ : ∀ e, Q e → Q' e) : Ends P' Q' x := by
  intro s
  have hend := h s
  cases hs : (x s).1 with
  | ok a =>
      rw [hs] at hend
      exact hP a hend
  | error e =>
      rw [hs] at hend
      exact hQ e hend

theorem ends_pure {a : α} (h : P a) : Ends P Q (pure a : Effect σ ε α) := fun _ => h

theorem ends_raise {e : ε} (h : Q e) : Ends P Q (raise e : Effect σ ε α) := fun _ => h

theorem ends_read (f : σ → α) : Ends (fun _ => True) Q (read f : Effect σ ε α) := fun _ => trivial

theorem ends_write (f : σ → α × σ) : Ends (fun _ => True) Q (write f : Effect σ ε α) :=
  fun _ => trivial

theorem Ends.bind {P' : β → Prop} {first : Effect σ ε α} {next : α → Effect σ ε β}
    (hfirst : Ends P Q first) (hnext : ∀ a, P a → Ends P' Q (next a)) :
    Ends P' Q (first >>= next) := by
  intro s
  have hend := hfirst s
  cases hs : first s with
  | mk result middle =>
      rw [hs] at hend
      cases result with
      | ok a =>
          rw [bind_of_ok hs]
          exact hnext a hend middle
      | error e =>
          rw [bind_of_error hs]
          exact hend

end Effect

/-! ## Connections -/

/-- What a connection has open: nothing, some work, or a transaction that failed
and accepts only a rollback. -/
inductive Tx (σ : Type u)
  | idle
  | active (work : σ)
  | aborted

/-- A connection to a database in state `σ`, in a world `ω`. -/
structure Conn (σ : Type u) (ω : Type v) where
  committed : σ
  tx : Tx σ
  world : ω

/-- Commit what is open. Committing a failed transaction rolls it back. -/
def Conn.commit {σ : Type u} {ω : Type v} (c : Conn σ ω) : Conn σ ω :=
  match c.tx with
  | .active work => { c with committed := work, tx := .idle }
  | _ => { c with tx := .idle }

/-- An exception of a session: one that was raised, or the refusal of a
statement in a transaction that failed. -/
inductive DbError (ε : Type w)
  | raised (e : ε)
  | inFailedTransaction
  deriving DecidableEq

/-- A computation on a connection. -/
abbrev Session (σ : Type u) (ω : Type v) (ε : Type w) (α : Type) :=
  Effect (Conn σ ω) (DbError ε) α

namespace Session

variable {σ : Type u} {ω : Type v} {ε : Type w} {α β : Type}

/-- Run a statement; it opens a transaction when none is open. -/
def execute (stmt : σ → Except ε (α × σ)) : Session σ ω ε α := fun c =>
  let run (work : σ) : Except (DbError ε) α × Conn σ ω :=
    match stmt work with
    | .ok (a, work) => (.ok a, { c with tx := .active work })
    | .error e => (.error (.raised e), { c with tx := .aborted })
  match c.tx with
  | .idle => run c.committed
  | .active work => run work
  | .aborted => (.error .inFailedTransaction, c)

/-- `conn.commit()`. -/
def commit : Session σ ω ε Unit := fun c => (.ok (), c.commit)

/-- A transaction block: a transaction of its own when none is open, else a
savepoint of the open one. -/
def transaction (body : Session σ ω ε α) : Session σ ω ε α := fun c =>
  match c.tx with
  | .idle =>
      match body { c with tx := .active c.committed } with
      | (.ok a, c) => (.ok a, c.commit)
      | (.error e, c) => (.error e, { c with tx := .idle })
  | .active work =>
      match body c with
      | (.ok a, c) => (.ok a, c)
      | (.error e, c) => (.error e, { c with tx := .active work })
  | .aborted => (.error .inFailedTransaction, c)

/-- Do something outside the database. -/
def outside (f : Effect ω ε α) : Session σ ω ε α := fun c =>
  ((f c.world).1.mapError .raised, { c with world := (f c.world).2 })

/-- `with connect(...)`: run the body, then commit if it ended normally (the
commit may fail), else roll back. -/
def connect (commits : Except ε Unit) (body : Session σ ω ε α) (db : σ) (world : ω) :
    Except (DbError ε) α × σ × ω :=
  match body ⟨db, .idle, world⟩ with
  | (.ok a, c) =>
      match commits with
      | .ok _ => (.ok a, c.commit.committed, c.world)
      | .error e => (.error (.raised e), c.committed, c.world)
  | (.error e, c) => (.error e, c.committed, c.world)

/-! ## Rules -/

variable {db work : σ} {world : ω}

/-- A statement sees the open work. -/
theorem execute_active {stmt : σ → Except ε (α × σ)} {a : α} {work' : σ}
    (h : stmt work = .ok (a, work')) :
    (execute stmt : Session σ ω ε α) ⟨db, .active work, world⟩ =
      (.ok a, ⟨db, .active work', world⟩) := by
  simp only [execute, h]

/-- A statement that fails leaves a transaction that only a rollback can end. -/
theorem execute_active_error {stmt : σ → Except ε (α × σ)} {e : ε} (h : stmt work = .error e) :
    (execute stmt : Session σ ω ε α) ⟨db, .active work, world⟩ =
      (.error (.raised e), ⟨db, .aborted, world⟩) := by
  simp only [execute, h]

/-- A statement outside a transaction opens one. -/
theorem execute_idle {stmt : σ → Except ε (α × σ)} {a : α} {work' : σ}
    (h : stmt db = .ok (a, work')) :
    (execute stmt : Session σ ω ε α) ⟨db, .idle, world⟩ =
      (.ok a, ⟨db, .active work', world⟩) := by
  simp only [execute, h]

theorem execute_idle_error {stmt : σ → Except ε (α × σ)} {e : ε} (h : stmt db = .error e) :
    (execute stmt : Session σ ω ε α) ⟨db, .idle, world⟩ =
      (.error (.raised e), ⟨db, .aborted, world⟩) := by
  simp only [execute, h]

/-- A statement that raises in every state raises, in or outside a transaction. -/
theorem execute_of_error {stmt : σ → Except ε (α × σ)} {e : ε} (h : ∀ work, stmt work = .error e)
    (c : Conn σ ω) : ∃ e', (execute stmt c).1 = .error e' := by
  cases htx : c.tx with
  | idle => exact ⟨.raised e, by simp only [execute, htx, h]⟩
  | active work => exact ⟨.raised e, by simp only [execute, htx, h]⟩
  | aborted => exact ⟨.inFailedTransaction, by simp only [execute, htx]⟩

/-- A statement commits nothing and touches nothing outside. -/
theorem execute_frame (stmt : σ → Except ε (α × σ)) (c : Conn σ ω) :
    (execute stmt c).2.committed = c.committed ∧ (execute stmt c).2.world = c.world := by
  cases htx : c.tx with
  | idle =>
      simp only [execute, htx]
      cases stmt c.committed <;> exact ⟨rfl, rfl⟩
  | active work =>
      simp only [execute, htx]
      cases stmt work <;> exact ⟨rfl, rfl⟩
  | aborted => simp only [execute, htx, and_self]

theorem commit_active :
    (commit : Session σ ω ε Unit) ⟨db, .active work, world⟩ = (.ok (), ⟨work, .idle, world⟩) :=
  rfl

/-- Inside an open transaction a block that ends normally commits nothing. -/
theorem transaction_active_ok {body : Session σ ω ε α} {a : α} {c : Conn σ ω}
    (h : body ⟨db, .active work, world⟩ = (.ok a, c)) :
    transaction body ⟨db, .active work, world⟩ = (.ok a, c) := by
  simp only [transaction, h]

/-- Inside an open transaction a block that raises is undone, and only it. -/
theorem transaction_active_error {body : Session σ ω ε α} {e : DbError ε} {c : Conn σ ω}
    (h : body ⟨db, .active work, world⟩ = (.error e, c)) :
    transaction body ⟨db, .active work, world⟩ =
      (.error e, ⟨c.committed, .active work, c.world⟩) := by
  simp only [transaction, h]

/-- A session that ends normally commits its open work. -/
theorem connect_of_ok {body : Session σ ω ε α} {a : α} {world' : ω} {committed : σ}
    (h : body ⟨db, .idle, world⟩ = (.ok a, ⟨committed, .active work, world'⟩)) :
    connect (.ok ()) body db world = (.ok a, work, world') := by
  simp only [connect, h, Conn.commit]

/-- A session whose commit fails keeps only what it had committed before. -/
theorem connect_of_commit_error {body : Session σ ω ε α} {a : α} {e : ε} {c : Conn σ ω}
    (h : body ⟨db, .idle, world⟩ = (.ok a, c)) :
    connect (.error e) body db world = (.error (.raised e), c.committed, c.world) := by
  simp only [connect, h]

/-- A session that raises keeps only what it had committed before. -/
theorem connect_of_error {commits : Except ε Unit} {body : Session σ ω ε α} {e : DbError ε}
    {c : Conn σ ω} (h : body ⟨db, .idle, world⟩ = (.error e, c)) :
    connect commits body db world = (.error e, c.committed, c.world) := by
  simp only [connect, h]

end Session

end DealFinder.Math
