/-
# Objects made once

The threads of the service share the embedding model, one key cache per project and one
connection pool per database. Each is made by the first thread that needs it, under a lock.
`_get_model` tests for the model before it takes the lock as well, and reads it again after it
gave the lock back; `_cache_for` and `get_pool` do both under the lock. `once` is the code of the
three, cut at its atomic steps.

Whatever the schedule, an object is made once, and every call returns that one (`made_once`). No
call gets stuck: another can fail to make the object, but gives the lock back (`finishes`).
-/

import DealFinder.Math.Dict
import DealFinder.Math.Threads

namespace DealFinder.Serve

open DealFinder.Math

variable {κ ν τ : Type}

/-- Where a thread is. -/
inductive Pc (κ ν : Type)
  | idle
  /-- At the test of `_get_model` outside the lock. -/
  | called (key : κ)
  /-- At `with lock`. -/
  | waiting (key : κ)
  /-- At the test under the lock. -/
  | locked (key : κ)
  /-- The object is being made. -/
  | making (key : κ)
  /-- About to store the object. -/
  | made (key : κ) (v : ν)
  /-- About to release the lock, then raise. -/
  | failing (key : κ) (exc : String)
  /-- About to leave the block. -/
  | present (key : κ)
  /-- About to release the lock, then return what was read. -/
  | read (key : κ) (v : Option ν)
  /-- About to read what `_get_model` returns. -/
  | returning (key : κ)

/-- What lets a thread go on. -/
inductive Action (κ ν : Type)
  | call (key : κ)
  | next
  /-- The constructor returns. -/
  | returns (v : ν)
  /-- The constructor raises. -/
  | raises (exc : String)

/-- What the world sees of a step. -/
inductive Signal (κ ν : Type)
  | silent
  | started (key : κ)
  | made (key : κ) (v : ν)
  | raised (key : κ) (exc : String)
  | returned (key : κ) (v : Option ν)
  deriving DecidableEq

section Code

variable [DecidableEq κ]

/-- The atomic steps of a call. With `peek` it tests before it takes the lock and reads after it
released it, else it does both under the lock. -/
def once (peek : Bool) : Code (Dict κ ν) (Pc κ ν) τ (Action κ ν) (Signal κ ν) :=
  fun shared lock thread action pc =>
    match action, pc with
    | .call key, .idle => some ⟨if peek then .called key else .waiting key, shared, lock, .silent⟩
    | .next, .called key =>
        some ⟨if (shared.get? key).isNone then .waiting key else .returning key, shared, lock,
          .silent⟩
    | .next, .waiting key =>
        match lock with
        | none => some ⟨.locked key, shared, some thread, .silent⟩
        | some _ => none
    | .next, .locked key =>
        if (shared.get? key).isNone then some ⟨.making key, shared, lock, .started key⟩
        else some ⟨.present key, shared, lock, .silent⟩
    | .returns v, .making key => some ⟨.made key v, shared, lock, .made key v⟩
    | .raises exc, .making key => some ⟨.failing key exc, shared, lock, .silent⟩
    | .next, .made key v => some ⟨.present key, shared.set key v, lock, .silent⟩
    | .next, .failing key exc => some ⟨.idle, shared, none, .raised key exc⟩
    | .next, .present key =>
        if peek then some ⟨.returning key, shared, none, .silent⟩
        else some ⟨.read key (shared.get? key), shared, lock, .silent⟩
    | .next, .read key v => some ⟨.idle, shared, none, .returned key v⟩
    | .next, .returning key => some ⟨.idle, shared, lock, .returned key (shared.get? key)⟩
    | _, _ => none

/-- `_get_model`: one model, tested for before the lock is taken. -/
def getModel : Code (Dict Unit ν) (Pc Unit ν) τ (Action Unit ν) (Signal Unit ν) := once true

/-- `_cache_for`: one key cache for each URL. -/
def cacheFor : Code (Dict String ν) (Pc String ν) τ (Action String ν) (Signal String ν) :=
  once false

/-- `get_pool`: one connection pool for each URL. -/
def getPool : Code (Dict String ν) (Pc String ν) τ (Action String ν) (Signal String ν) :=
  once false

end Code

/-- Nothing is made, and no thread is in a call. -/
def start : Threads (Dict κ ν) (Pc κ ν) τ := ⟨.empty, none, fun _ => .idle⟩

/-! ## The outline -/

/-- Between acquiring the lock and releasing it. -/
def Pc.inside : Pc κ ν → Bool
  | .locked _ | .making _ | .made .. | .failing .. | .present _ | .read .. => true
  | _ => false

/-- An object is being made, or was made and is not stored yet. -/
def Pc.busy : Pc κ ν → Bool
  | .making _ | .made .. => true
  | _ => false

/-- The objects of a key on the record. -/
def madeOf [DecidableEq κ] (key : κ) (log : List (κ × ν)) : List ν :=
  (log.filter fun entry => entry.1 = key).map Prod.snd

section Outline

variable [DecidableEq κ] {log : List (κ × ν)} {shared : Dict κ ν} {key other : κ} {v : ν}

@[simp]
theorem madeOf_concat_self : madeOf key (log ++ [(key, v)]) = madeOf key log ++ [v] := by
  simp [madeOf]

theorem madeOf_concat_of_ne (h : other ≠ key) :
    madeOf other (log ++ [(key, v)]) = madeOf other log := by
  simp [madeOf, Ne.symm h]

theorem madeOf_append (key : κ) (log more : List (κ × ν)) :
    madeOf key (log ++ more) = madeOf key log ++ madeOf key more := by
  simp [madeOf]

/-- What is stored is what was made. -/
def Stored (log : List (κ × ν)) (shared : Dict κ ν) : Prop :=
  ∀ key, madeOf key log = (shared.get? key).toList

/-- What is stored is what was made, but an object may not be stored yet. -/
def Storing (log : List (κ × ν)) (shared : Dict κ ν) : Prop :=
  ∀ key, madeOf key log = (shared.get? key).toList ∨
    shared.get? key = none ∧ ∃ v, madeOf key log = [v]

theorem Stored.storing (h : Stored log shared) : Storing log shared := fun key => Or.inl (h key)

/-- The object made for a key waits to be stored. -/
structure Made (log : List (κ × ν)) (shared : Dict κ ν) (key : κ) (v : ν) : Prop where
  absent : shared.get? key = none
  made : madeOf key log = [v]
  others : ∀ other, other ≠ key → madeOf other log = (shared.get? other).toList

theorem Stored.make (h : Stored log shared) (habsent : shared.get? key = none) (v : ν) :
    Made (log ++ [(key, v)]) shared key v where
  absent := habsent
  made := by rw [madeOf_concat_self, h, habsent, Option.toList_none, List.nil_append]
  others other hne := by rw [madeOf_concat_of_ne hne, h]

theorem Made.storing (h : Made log shared key v) : Storing log shared := by
  intro other
  by_cases heq : other = key
  · subst heq
    exact Or.inr ⟨h.absent, v, h.made⟩
  · exact Or.inl (h.others other heq)

theorem Made.store (h : Made log shared key v) : Stored log (shared.set key v) := by
  intro other
  rw [Dict.get?_set]
  split_ifs with heq
  · rw [heq, h.made, Option.toList_some]
  · exact h.others other heq

/-- What a thread knows at its place. -/
def Knows (log : List (κ × ν)) (shared : Dict κ ν) : Pc κ ν → Prop
  | .idle | .called _ | .waiting _ => Storing log shared
  | .locked _ | .failing .. => Stored log shared
  | .making key => Stored log shared ∧ shared.get? key = none
  | .made key v => Made log shared key v
  | .present key => Stored log shared ∧ (shared.get? key).isSome
  | .read key v => Stored log shared ∧ (shared.get? key).isSome ∧ v = shared.get? key
  | .returning key => Storing log shared ∧ (shared.get? key).isSome

/-- The outline of `once`: the objects made are recorded. -/
def outline : Threads.Outline (Dict κ ν) (Pc κ ν) (Signal κ ν) (κ × ν) where
  inside := Pc.inside
  record
    | .made key v => some (key, v)
    | _ => none
  free := Stored
  at' := Knows

/-- What every thread outside knows. -/
theorem Knows.storing {pc : Pc κ ν} (h : Knows log shared pc) : Storing log shared := by
  cases pc with
  | idle | called _ | waiting _ => exact h
  | locked _ | failing _ _ => exact Stored.storing h
  | making _ | present _ | read _ _ => exact h.1.storing
  | made _ _ => exact Made.storing h
  | returning _ => exact h.1

/-- What a thread outside knows is stable. -/
theorem Knows.stable {log' : List (κ × ν)} {shared' : Dict κ ν} {pc : Pc κ ν}
    (h : Knows log shared pc) (houtside : pc.inside = false) (hstoring : Storing log' shared')
    (hkept : ∀ key, (shared.get? key).isSome → (shared'.get? key).isSome) :
    Knows log' shared' pc := by
  cases pc with
  | idle | called _ | waiting _ => exact hstoring
  | returning key => exact ⟨hstoring, hkept key h.2⟩
  | locked _ | failing _ _ | making _ | present _ | read _ _ | made _ _ => cases houtside

/-- A step inside that writes nothing. -/
theorem allowed_quiet {lock : Option τ} {thread : τ} {pc next : Pc κ ν} {signal : Signal κ ν}
    (hpc : pc.inside = true) (hnext : next.inside = true) (hsignal : outline.record signal = none)
    (hknows : Knows log shared pc → Knows log shared next) :
    outline.Allowed log shared lock thread pc ⟨next, shared, lock, signal⟩ := by
  refine .inner rfl hpc hnext ?_ ?_
  · rw [Threads.Outline.extend_of_none hsignal]
    exact hknows
  · rw [Threads.Outline.extend_of_none hsignal]
    exact fun _ _ _ hother => hother

/-- The outline proves the code. -/
theorem outline_proves (peek : Bool) : outline.Proves (once (τ := τ) (κ := κ) (ν := ν) peek) := by
  intro log shared lock thread action pc t h
  cases pc with
  | idle =>
      cases action with
      | call key =>
          cases Option.some.inj h
          cases peek <;> exact .apart rfl rfl rfl rfl rfl id
      | next | returns _ | raises _ => cases h
  | called key =>
      cases action with
      | next =>
          cases Option.some.inj h
          cases habsent : (shared.get? key).isNone with
          | true => exact .apart rfl rfl rfl rfl rfl id
          | false =>
              refine .apart rfl rfl rfl rfl rfl fun hknows => ⟨hknows, ?_⟩
              simpa using habsent
      | call _ | returns _ | raises _ => cases h
  | waiting key =>
      cases action with
      | next =>
          cases lock with
          | none =>
              cases Option.some.inj h
              exact .acquire rfl rfl rfl rfl rfl fun hfree _ => hfree
          | some _ => cases h
      | call _ | returns _ | raises _ => cases h
  | locked key =>
      cases action with
      | next =>
          cases habsent : (shared.get? key).isNone with
          | true =>
              simp only [once, habsent, if_true, Option.some.injEq] at h
              subst h
              exact allowed_quiet rfl rfl rfl fun hknows => ⟨hknows, by simpa using habsent⟩
          | false =>
              simp only [once, habsent, Bool.false_eq_true, if_false, Option.some.injEq] at h
              subst h
              exact allowed_quiet rfl rfl rfl fun hknows => ⟨hknows, by simpa using habsent⟩
      | call _ | returns _ | raises _ => cases h
  | making key =>
      cases action with
      | returns v =>
          cases Option.some.inj h
          refine .inner rfl rfl rfl (fun hknows => hknows.1.make hknows.2 v) ?_
          exact fun pc' hoff hknows hother =>
            hother.stable hoff (hknows.1.make hknows.2 v).storing fun _ hkept => hkept
      | raises exc =>
          cases Option.some.inj h
          exact allowed_quiet rfl rfl rfl And.left
      | call _ | next => cases h
  | made key v =>
      cases action with
      | next =>
          cases Option.some.inj h
          refine .inner rfl rfl rfl (fun hknows => ?_) fun pc' hoff hknows hother => ?_
          · rw [Threads.Outline.extend_of_none rfl]
            exact ⟨hknows.store, by rw [Dict.get?_set_self]; rfl⟩
          · rw [Threads.Outline.extend_of_none rfl]
            refine hother.stable hoff hknows.store.storing fun other hkept => ?_
            rw [Dict.get?_set]
            split_ifs
            · rfl
            · exact hkept
      | call _ | returns _ | raises _ => cases h
  | failing key exc =>
      cases action with
      | next =>
          cases Option.some.inj h
          exact .release rfl rfl rfl rfl rfl fun hknows => ⟨hknows, Stored.storing hknows⟩
      | call _ | returns _ | raises _ => cases h
  | present key =>
      cases action with
      | next =>
          cases peek with
          | true =>
              cases Option.some.inj h
              exact .release rfl rfl rfl rfl rfl fun hknows =>
                ⟨hknows.1, hknows.1.storing, hknows.2⟩
          | false =>
              cases Option.some.inj h
              exact allowed_quiet rfl rfl rfl fun hknows => ⟨hknows.1, hknows.2, rfl⟩
      | call _ | returns _ | raises _ => cases h
  | read key v =>
      cases action with
      | next =>
          cases Option.some.inj h
          exact .release rfl rfl rfl rfl rfl fun hknows => ⟨hknows.1, hknows.1.storing⟩
      | call _ | returns _ | raises _ => cases h
  | returning key =>
      cases action with
      | next =>
          cases Option.some.inj h
          exact .apart rfl rfl rfl rfl rfl And.left
      | call _ | returns _ | raises _ => cases h

end Outline

/-! ## Which steps the world sees -/

section Signals

variable [DecidableEq κ] {peek : Bool} {shared : Dict κ ν} {lock : Option τ} {thread : τ}
variable {action : Action κ ν} {pc : Pc κ ν} {t : Turn (Dict κ ν) (Pc κ ν) τ (Signal κ ν)}
variable {key : κ} {v : Option ν}

theorem once_started (h : once peek shared lock thread action pc = some t)
    (hsignal : t.signal = .started key) : pc = .locked key ∧ shared.get? key = none := by
  revert h
  fun_cases once peek shared lock thread action pc <;> intro h <;> cases h <;>
    try cases hsignal
  next habsent => exact ⟨rfl, Option.isNone_iff_eq_none.1 habsent⟩

theorem once_returned (h : once peek shared lock thread action pc = some t)
    (hsignal : t.signal = .returned key v) :
    pc = .read key v ∨ pc = .returning key ∧ v = shared.get? key := by
  revert h
  fun_cases once peek shared lock thread action pc <;> intro h <;> cases h <;>
    try cases hsignal
  · exact Or.inl rfl
  · exact Or.inr ⟨rfl, rfl⟩

end Signals

/-! ## Runs -/

variable [DecidableEq κ] [DecidableEq τ]

/-- The objects that a run makes, in order. -/
def makings (peek : Bool) (moves : List (Move τ (Action κ ν))) : List (κ × ν) :=
  outline.log (once peek) start moves

/-- The threads after a run. -/
def reached (peek : Bool) (moves : List (Move τ (Action κ ν))) :
    Threads (Dict κ ν) (Pc κ ν) τ :=
  (Threads.machine (once peek)).run start moves

/-- What the world sees of a move after a run. -/
def signalOf (peek : Bool) (past : List (Move τ (Action κ ν))) (e : Move τ (Action κ ν)) :
    Option (Signal κ ν) :=
  (Threads.machine (once peek)).answerAfter start past e

/-- What a run never does otherwise. -/
structure MadeOnce (peek : Bool) (moves : List (Move τ (Action κ ν))) : Prop where
  /-- A key has at most one object. -/
  single : ∀ key, (madeOf key (makings peek moves)).length ≤ 1
  /-- Two objects are never made at the same time. -/
  apart : ∀ first second, ((reached peek moves).pc first).busy = true →
    ((reached peek moves).pc second).busy = true → first = second
  /-- An object starts to be made only while its key has none. -/
  needed : ∀ past e rest key, moves = past ++ e :: rest →
    signalOf peek past e = some (.started key) → madeOf key (makings peek past) = []
  /-- Every call that returns returns the one object of its key. -/
  same : ∀ past e rest key v, moves = past ++ e :: rest →
    signalOf peek past e = some (.returned key v) →
      ∃ x, v = some x ∧ madeOf key (makings peek moves) = [x]

section Run

variable {peek : Bool} {moves past : List (Move τ (Action κ ν))} {e : Move τ (Action κ ν)}
variable {key : κ} {v : Option ν}

theorem run_holds (peek : Bool) (moves : List (Move τ (Action κ ν))) :
    outline.Holds (makings peek moves) (reached peek moves) := by
  have hstored : Stored ([] : List (κ × ν)) .empty := fun _ => rfl
  have hstart : outline.Holds ([] : List (κ × ν)) (start : Threads (Dict κ ν) (Pc κ ν) τ) :=
    ⟨fun thread => by simp [start, outline, Pc.inside], fun _ => hstored,
      fun thread => hstored.storing⟩
  exact Threads.Outline.run_proved (outline_proves peek) hstart moves

theorem run_storing (peek : Bool) (moves : List (Move τ (Action κ ν))) :
    Storing (makings peek moves) (reached peek moves).shared := by
  have hholds := run_holds peek moves
  cases hlock : (reached peek moves).lock with
  | none => exact Stored.storing (hholds.free hlock)
  | some thread => exact Knows.storing (hholds.at' thread)

/-- A move that the world sees is a step of its thread. -/
theorem exists_turn {signal : Signal κ ν} (h : signalOf peek past e = some signal) :
    ∃ t, once peek (reached peek past).shared (reached peek past).lock e.thread e.action
      ((reached peek past).pc e.thread) = some t ∧ t.signal = signal := by
  rw [signalOf, Machine.answerAfter] at h
  rcases Threads.step_cases (once peek) (reached peek past) e with hsame | ⟨t, htaken, hstep⟩
  · rw [reached] at hsame
    rw [hsame] at h
    cases h
  · refine ⟨t, htaken, ?_⟩
    rw [reached] at hstep
    rw [hstep] at h
    exact Option.some.inj h

theorem Storing.single {log : List (κ × ν)} {shared : Dict κ ν} (h : Storing log shared) :
    (madeOf key log).length ≤ 1 := by
  rcases h key with hstored | ⟨-, x, hmade⟩
  · rw [hstored]
    cases shared.get? key <;> simp
  · simp [hmade]

theorem Storing.of_some {log : List (κ × ν)} {shared : Dict κ ν} {x : ν} (h : Storing log shared)
    (hx : shared.get? key = some x) : madeOf key log = [x] := by
  rcases h key with hstored | ⟨habsent, -⟩
  · rw [hstored, hx, Option.toList_some]
  · rw [habsent] at hx
    cases hx

/-- What was made stays on the record. -/
theorem makings_append (peek : Bool) (past rest : List (Move τ (Action κ ν))) :
    ∃ more, makings peek (past ++ rest) = makings peek past ++ more :=
  ⟨_, Machine.observe_append ..⟩

/-- **Objects are made once.** In every schedule, with constructors that may raise: a key has at
most one object, two are never made at the same time, none is made of a key that has one, and
every call that returns returns the one of its key. -/
theorem made_once (peek : Bool) (moves : List (Move τ (Action κ ν))) : MadeOnce peek moves where
  single := fun _ => (run_storing peek moves).single
  apart first second hfirst hsecond := by
    have hholds := run_holds peek moves
    have hinside : ∀ thread, ((reached peek moves).pc thread).busy = true →
        (reached peek moves).lock = some thread := by
      intro thread hbusy
      refine (hholds.exclusive thread).1 ?_
      revert hbusy
      cases (reached peek moves).pc thread with
      | making _ | made _ _ => exact id
      | idle | called _ | waiting _ | locked _ | failing _ _ | present _ | read _ _
      | returning _ => exact fun hbusy => by cases hbusy
    exact Option.some.inj ((hinside first hfirst).symm.trans (hinside second hsecond))
  needed past e rest key _ hsignal := by
    obtain ⟨t, htaken, hstarted⟩ := exists_turn hsignal
    obtain ⟨hpc, habsent⟩ := once_started htaken hstarted
    have hknows := (run_holds peek past).at' e.thread
    rw [hpc] at hknows
    have hstored : Stored (makings peek past) (reached peek past).shared := hknows
    rw [hstored, habsent, Option.toList_none]
  same past e rest key v hmoves hsignal := by
    obtain ⟨t, htaken, hreturned⟩ := exists_turn hsignal
    have hknows := (run_holds peek past).at' e.thread
    have hpast : ∃ x, v = some x ∧ madeOf key (makings peek past) = [x] := by
      rcases once_returned htaken hreturned with hpc | ⟨hpc, hv⟩
      · rw [hpc] at hknows
        obtain ⟨hstored, hsome, hv⟩ := hknows
        obtain ⟨x, hx⟩ := Option.isSome_iff_exists.1 hsome
        exact ⟨x, hv.trans hx, hstored.storing.of_some hx⟩
      · rw [hpc] at hknows
        obtain ⟨hstoring, hsome⟩ := hknows
        obtain ⟨x, hx⟩ := Option.isSome_iff_exists.1 hsome
        exact ⟨x, hv.trans hx, hstoring.of_some hx⟩
    obtain ⟨x, hv, hmade⟩ := hpast
    obtain ⟨more, hmore⟩ := makings_append peek past (e :: rest)
    have hsingle : (madeOf key (makings peek moves)).length ≤ 1 := (run_storing peek moves).single
    refine ⟨x, hv, ?_⟩
    rw [hmoves, hmore, madeOf_append, hmade] at hsingle ⊢
    have hnone : madeOf key more = [] := by simpa using hsingle
    rw [hnone, List.append_nil]

end Run

/-- Two threads pass the test outside the lock, and the second finds the model that the first made. -/
example :
    makings (κ := Unit) true
      [⟨0, .call ()⟩, ⟨1, .call ()⟩, ⟨0, .next⟩, ⟨1, .next⟩, ⟨0, .next⟩, ⟨1, .next⟩, ⟨0, .next⟩,
        ⟨0, .returns 7⟩, ⟨0, .next⟩, ⟨0, .next⟩, ⟨1, .next⟩, ⟨1, .next⟩, ⟨1, .next⟩, ⟨1, .next⟩] =
      [((), 7)] := by
  decide

/-! ## No call gets stuck -/

/-- The constructor's end. -/
def Action.ofResult : Except String ν → Action κ ν
  | .ok v => .returns v
  | .error exc => .raises exc

/-- A thread goes on for a whole call, and a constructor ends as it does. A move too many changes
nothing. -/
def drive (thread : τ) (result : Except String ν) : List (Move τ (Action κ ν)) :=
  [⟨thread, .next⟩, ⟨thread, .next⟩, ⟨thread, .next⟩, ⟨thread, .ofResult result⟩, ⟨thread, .next⟩,
    ⟨thread, .next⟩, ⟨thread, .next⟩]

section Drive

variable {peek : Bool} {s : Threads (Dict κ ν) (Pc κ ν) τ} {thread : τ}
variable {result : Except String ν}

/-- A thread that can take the lock, or has it, ends its call and leaves the lock free. -/
theorem run_drive (peek : Bool) (result : Except String ν)
    (hexclusive : (s.pc thread).inside = true ↔ s.lock = some thread)
    (hfree : s.lock = none ∨ s.lock = some thread) :
    ((Threads.machine (once peek)).run s (drive thread result)).pc thread = .idle ∧
      ((Threads.machine (once peek)).run s (drive thread result)).lock = none := by
  obtain ⟨shared, lock, pc⟩ := s
  simp only at hexclusive hfree
  have hlock : lock = if (pc thread).inside then some thread else none := by
    split_ifs with hinside
    · exact hexclusive.1 hinside
    · exact hfree.resolve_right fun hheld => hinside (hexclusive.2 hheld)
  subst hlock
  cases hpc : pc thread with
  | called key | waiting key | locked key | making key =>
      cases hkey : shared.get? key <;> cases peek <;> cases result <;>
        simp [drive, Action.ofResult, Threads.machine, once, hpc, hkey, Threads.after, Pc.inside]
  | made key v | present key =>
      cases peek <;> cases result <;>
        simp [drive, Action.ofResult, Threads.machine, once, hpc, Threads.after, Pc.inside]
  | idle | failing key exc | read key v | returning key =>
      cases result <;>
        simp [drive, Action.ofResult, Threads.machine, once, hpc, Threads.after, Pc.inside]

/-- **No call gets stuck.** After every run, each thread ends its call once the thread that holds
the lock, if another does, and then the thread itself go on, however constructors end. -/
theorem finishes (peek : Bool) (moves : List (Move τ (Action κ ν))) (thread : τ)
    (result : τ → Except String ν) :
    (reached peek (moves ++
      ((reached peek moves).lock.toList.flatMap fun holder => drive holder (result holder)) ++
        drive thread (result thread))).pc thread = .idle := by
  have hfree : (reached peek (moves ++
      (reached peek moves).lock.toList.flatMap fun holder => drive holder (result holder))).lock =
        none := by
    cases hlock : (reached peek moves).lock with
    | none => simpa using hlock
    | some holder =>
        simp only [Option.toList_some, List.flatMap_singleton]
        rw [reached, Machine.run_append]
        exact (run_drive peek (result holder) ((run_holds peek moves).exclusive holder)
          (Or.inr hlock)).2
  rw [reached, Machine.run_append]
  exact (run_drive peek (result thread) ((run_holds peek _).exclusive thread) (Or.inl hfree)).1

end Drive

end DealFinder.Serve
