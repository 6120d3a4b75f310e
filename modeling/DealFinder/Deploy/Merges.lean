/-
# Two writers of the secret

Two runs of `merge` share one secret without a lock. Each reads the latest version,
adds one, lists all and destroys every listed version but its own, and the `gcloud`
steps of the two interleave as they please.

`turn` is the code of `merge` cut at these steps; a writer alone computes it
(`run_solo`).
-/

import DealFinder.Deploy.Agreement
import DealFinder.Math.Machine
import Mathlib.Logic.Function.Basic

namespace DealFinder.Deploy.Merges

open DealFinder.Math DealFinder.Deploy.Secrets
open DealFinder.Deploy.LoginRole (Ends Ends.newest Ends.destroy ends_add current_store)

/-- The two runs. -/
inductive Writer
  | one
  | two
  deriving DecidableEq

def Writer.other : Writer → Writer
  | .one => .two
  | .two => .one

/-- Updates of contract keys, each with a value. -/
structure Updates where
  payload : Payload
  contract : ∀ key ∈ payload, key ∈ keys
  valued : ∀ key value, payload.get? key = some value → value ≠ ""

/-- What a failing step prints. `gcloud` says NOT_FOUND only where there is nothing
to read, so a fault does not say it. -/
structure Fault where
  text : String
  found : ¬ "NOT_FOUND".toList <:+: text.toList

/-- Where a run is in `merge`. -/
inductive Pc
  /-- About to access the latest version. -/
  | reading
  /-- About to add a version. -/
  | adding (payload : Payload)
  /-- About to list the versions. -/
  | listing (new : ℕ)
  /-- In the loop over the listed versions. -/
  | destroying (new : ℕ) (left : List (ℕ × VersionState))
  | done (new : ℕ)
  | failed (error : RuntimeError)

/-- The steps of `merge`: where the run is after one, and the secret it leaves. -/
def turn (updates : Payload) (fault : Option String) : Pc → Store → Pc × Store
  | .reading, store =>
      match current fault store with
      | (.ok stored, store) => (.adding (buildPayload (stored.update updates)), store)
      | (.error e, store) => (.failed e, store)
  | .adding payload, store =>
      match check fault "versions add" (fun store => (store.next, store.add payload)) store with
      | (.ok new, store) => (.listing new, store)
      | (.error e, store) => (.failed e, store)
  | .listing new, store =>
      match check fault "versions list" (fun store =>
        (store.versions.map fun version => (version.number, version.state), store)) store with
      | (.ok listed, store) => (.destroying new listed, store)
      | (.error e, store) => (.failed e, store)
  | .destroying new [], store => (.done new, store)
  | .destroying new ((number, state) :: rest), store =>
      if number ≠ new ∧ state ≠ .destroyed then
        match check fault ("destroy v" ++ toString number)
          (fun store => ((), store.destroy number)) store with
        | (.ok _, store) => (.destroying new rest, store)
        | (.error e, store) => (.failed e, store)
      else (.destroying new rest, store)
  | .done new, store => (.done new, store)
  | .failed e, store => (.failed e, store)

/-- The secret, and where each run is. -/
structure State where
  store : Store
  pc : Writer → Pc

/-- A run takes its next step, which may fail. -/
structure Event where
  writer : Writer
  fault : Option Fault

section Machine

variable (updates : Writer → Updates)

/-- What a step of a run comes to. -/
def stepOf (s : State) (e : Event) : Pc × Store :=
  turn (updates e.writer).payload (e.fault.map Fault.text) (s.pc e.writer) s.store

/-- The two runs, driven by a schedule. -/
def machine : Machine State Event Unit where
  step s e := ((), ⟨(stepOf updates s e).2, Function.update s.pc e.writer (stepOf updates s e).1⟩)

end Machine

/-- Neither run has begun. -/
def start (store : Store) : State := ⟨store, fun _ => .reading⟩

/-! ## Steps -/

/-- The steps of a run, by name. -/
inductive Taken (updates : Payload) (store : Store) : Pc → Pc × Store → Prop
  | read (stored : Payload) (hread : current none store = (.ok stored, store)) :
      Taken updates store .reading (.adding (buildPayload (stored.update updates)), store)
  | add (payload : Payload) :
      Taken updates store (.adding payload) (.listing store.next, store.add payload)
  | list (new : ℕ) :
      Taken updates store (.listing new)
        (.destroying new (store.versions.map fun version => (version.number, version.state)),
          store)
  | skip (new number : ℕ) (state : VersionState) (rest : List (ℕ × VersionState))
      (hskip : ¬ (number ≠ new ∧ state ≠ .destroyed)) :
      Taken updates store (.destroying new ((number, state) :: rest)) (.destroying new rest, store)
  | destroy (new number : ℕ) (state : VersionState) (rest : List (ℕ × VersionState))
      (hold : number ≠ new ∧ state ≠ .destroyed) :
      Taken updates store (.destroying new ((number, state) :: rest))
        (.destroying new rest, store.destroy number)
  | finish (new : ℕ) : Taken updates store (.destroying new []) (.done new, store)
  | rest (new : ℕ) : Taken updates store (.done new) (.done new, store)
  | fail (pc : Pc) (e : RuntimeError) : Taken updates store pc (.failed e, store)

theorem turn_taken (updates : Payload) (fault : Option Fault) (pc : Pc) (store : Store) :
    Taken updates store pc (turn updates (fault.map Fault.text) pc store) := by
  cases pc with
  | reading =>
      cases fault with
      | none =>
          have hstore := current_store none store
          simp only [turn, Option.map_none]
          cases hread : current none store with
          | mk result store' =>
              rw [hread] at hstore
              subst hstore
              cases result with
              | ok stored => exact .read stored hread
              | error e => exact .fail .reading e
      | some fault =>
          have hread : current (some fault.text) store =
              (.error ⟨"versions access failed: " ++ excerpt fault.text⟩, store) := by
            simp only [current, access, if_neg fault.found]
          simp only [turn, Option.map_some, hread]
          exact .fail .reading _
  | adding payload =>
      cases fault with
      | none => exact .add payload
      | some fault => exact .fail (.adding payload) _
  | listing new =>
      cases fault with
      | none => exact .list new
      | some fault => exact .fail (.listing new) _
  | destroying new left =>
      cases left with
      | nil => exact .finish new
      | cons entry rest =>
          obtain ⟨number, state⟩ := entry
          simp only [turn]
          by_cases hold : number ≠ new ∧ state ≠ .destroyed
          · rw [if_pos hold]
            cases fault with
            | none => exact .destroy new number state rest hold
            | some fault => exact .fail (.destroying new ((number, state) :: rest)) _
          · rw [if_neg hold]
            exact .skip new number state rest hold
  | done new => exact .rest new
  | failed e => exact .fail (.failed e) e

section Step

variable {updates : Writer → Updates}

/-- A step of the machine is a step of its writer. -/
theorem step_cases (s : State) (e : Event) :
    ∃ t, Taken (updates e.writer).payload s.store (s.pc e.writer) t ∧
      ((machine updates).step s e).2 = ⟨t.2, Function.update s.pc e.writer t.1⟩ :=
  ⟨_, turn_taken _ e.fault _ s.store, rfl⟩

end Step

/-- What `current` reads is what the latest version holds, which then is enabled. -/
theorem current_cases {store : Store} {stored : Payload}
    (h : current none store = (.ok stored, store)) :
    (store.versions = [] ∧ stored = .empty) ∨
      ∃ latest, Ends store latest ∧ stored = latest.payload := by
  rcases List.eq_nil_or_concat' store.versions with hempty | ⟨older, latest, hversions⟩
  · refine Or.inl ⟨hempty, ?_⟩
    have hread : current none store = (.ok .empty, store) := by
      simp only [current, access, hempty, List.getLast?_nil]
      exact if_pos (List.infix_refl _)
    rw [hread] at h
    exact (Except.ok.inj (Prod.mk.inj h).1).symm
  · refine Or.inr ⟨latest, ⟨older, hversions⟩, ?_⟩
    have hlast : store.versions.getLast? = some latest := by simp [hversions]
    by_cases hstate : latest.state = .enabled
    · simp only [current, access, hlast, if_pos hstate] at h
      exact (Except.ok.inj (Prod.mk.inj h).1).symm
    · simp only [current, access, hlast, if_neg hstate] at h
      rw [if_neg (by decide +kernel)] at h
      cases (Prod.mk.inj h).1

/-! ## A run alone -/

/-- The faults of the steps of one run. -/
structure Faulty where
  access : Option Fault
  add : Option Fault
  list : Option Fault
  destroy : ℕ → Option Fault

/-- The texts they print. -/
def Faulty.texts (faulty : Faulty) : Faults where
  access := faulty.access.map Fault.text
  add := faulty.add.map Fault.text
  list := faulty.list.map Fault.text
  destroy := fun number => (faulty.destroy number).map Fault.text

/-- Where a run is after `merge`. -/
def ended : Except RuntimeError ℕ → Pc
  | .ok new => .done new
  | .error e => .failed e

/-- The steps of the loop over listed versions, to the end of the run. -/
def soloLoop (writer : Writer) (faulty : Faulty) (listed : List (ℕ × VersionState)) : List Event :=
  listed.map (fun entry => ⟨writer, faulty.destroy entry.1⟩) ++ [⟨writer, none⟩]

/-- The steps of a whole run. A run that fails leaves the later ones untaken. -/
def solo (writer : Writer) (faulty : Faulty) (store : Store) : List Event :=
  [⟨writer, faulty.access⟩, ⟨writer, faulty.add⟩, ⟨writer, faulty.list⟩] ++
    soloLoop writer faulty
      ((store.versions.map fun version => (version.number, version.state)) ++
        [(store.next, .enabled)])

section Solo

variable {updates : Writer → Updates} {writer : Writer} {faulty : Faulty}

/-- A run takes a step. -/
theorem step_solo {s : State} {fault : Option Fault} {pc : Pc} {store : Store}
    (h : turn (updates writer).payload (fault.map Fault.text) (s.pc writer) s.store =
      (pc, store)) :
    ((machine updates).step s ⟨writer, fault⟩).2 = ⟨store, Function.update s.pc writer pc⟩ := by
  simp only [machine, stepOf, h]

/-- A failed run does nothing more. -/
theorem run_failed {s : State} {e : RuntimeError} (hfailed : s.pc writer = .failed e)
    (events : List Event) (hown : ∀ event ∈ events, event.writer = writer) :
    (machine updates).run s events = s := by
  induction events with
  | nil => rfl
  | cons event rest ih =>
      obtain ⟨owner, fault⟩ := event
      obtain rfl : owner = writer := hown _ List.mem_cons_self
      have hturn : turn (updates owner).payload (fault.map Fault.text) (s.pc owner) s.store =
          (.failed e, s.store) := by rw [hfailed]; rfl
      rw [Machine.run_cons, step_solo hturn, ← hfailed, Function.update_eq_self]
      exact ih fun event hevent => hown event (List.mem_cons_of_mem _ hevent)

theorem own_soloLoop (listed : List (ℕ × VersionState)) :
    ∀ event ∈ soloLoop writer faulty listed, event.writer = writer := by
  intro event hevent
  rcases List.mem_append.1 hevent with hloop | hlast
  · obtain ⟨entry, -, rfl⟩ := List.mem_map.1 hloop
    rfl
  · rw [List.mem_singleton.1 hlast]

/-- The loop of a run alone is `destroyOlder`. -/
theorem run_soloLoop {new : ℕ} (listed : List (ℕ × VersionState)) (s : State)
    (hpc : s.pc writer = .destroying new listed) :
    (machine updates).run s (soloLoop writer faulty listed) =
      ⟨(destroyOlder faulty.texts new listed s.store).2,
        Function.update s.pc writer
          (ended ((destroyOlder faulty.texts new listed s.store).1.map fun _ => new))⟩ := by
  induction listed generalizing s with
  | nil =>
      have hturn : turn (updates writer).payload ((none : Option Fault).map Fault.text)
          (s.pc writer) s.store = (.done new, s.store) := by
        rw [hpc]
        rfl
      exact step_solo hturn
  | cons entry rest ih =>
      obtain ⟨number, state⟩ := entry
      have hnext : soloLoop writer faulty ((number, state) :: rest) =
          ⟨writer, faulty.destroy number⟩ :: soloLoop writer faulty rest := rfl
      rw [hnext, Machine.run_cons]
      by_cases hold : number ≠ new ∧ state ≠ .destroyed
      · cases hfault : faulty.destroy number with
        | none =>
            have hturn : turn (updates writer).payload ((none : Option Fault).map Fault.text)
                (s.pc writer) s.store = (.destroying new rest, s.store.destroy number) := by
              rw [hpc, turn, if_pos hold]
              rfl
            rw [step_solo hturn, ih _ (Function.update_self ..), Function.update_idem,
              destroyOlder_of_none hold (by simp [Faulty.texts, hfault])]
        | some fault =>
            have hturn : turn (updates writer).payload ((some fault).map Fault.text)
                (s.pc writer) s.store = (.failed ⟨"destroy v" ++ toString number ++ " failed: " ++
                  excerpt fault.text⟩, s.store) := by
              rw [hpc, turn, if_pos hold]
              rfl
            rw [step_solo hturn, run_failed (Function.update_self ..) _ (own_soloLoop rest),
              destroyOlder_of_fault hold (by simp [Faulty.texts, hfault]; rfl)]
            rfl
      · have hturn : turn (updates writer).payload ((faulty.destroy number).map Fault.text)
            (s.pc writer) s.store = (.destroying new rest, s.store) := by
          rw [hpc, turn, if_neg hold]
        rw [step_solo hturn, ih _ (Function.update_self ..), Function.update_idem,
          destroyOlder_skip hold]

/-- A run that has added its version goes on as the rest of `push`. -/
theorem run_listing {new : ℕ} (s : State) (hpc : s.pc writer = .listing new) :
    let rest : Gcloud ℕ := do
      let listed ← check faulty.texts.list "versions list" fun store =>
        (store.versions.map fun version => (version.number, version.state), store)
      destroyOlder faulty.texts new listed
      pure new
    (machine updates).run s (⟨writer, faulty.list⟩ ::
        soloLoop writer faulty (s.store.versions.map fun version =>
          (version.number, version.state))) =
      ⟨(rest s.store).2, Function.update s.pc writer (ended (rest s.store).1)⟩ := by
  have hlist : faulty.texts.list = faulty.list.map Fault.text := rfl
  dsimp only
  rw [hlist, Machine.run_cons]
  cases faulty.list with
  | some fault =>
      have hturn : turn (updates writer).payload ((some fault).map Fault.text) (s.pc writer)
          s.store = (.failed ⟨"versions list" ++ " failed: " ++ excerpt fault.text⟩, s.store) := by
        rw [hpc]
        rfl
      rw [step_solo hturn, run_failed (Function.update_self ..) _ (own_soloLoop _),
        Option.map_some, Effect.bind_of_error (check_of_fault ..)]
      rfl
  | none =>
      have hturn : turn (updates writer).payload ((none : Option Fault).map Fault.text)
          (s.pc writer) s.store = (.destroying new (s.store.versions.map fun version =>
            (version.number, version.state)), s.store) := by
        rw [hpc]
        rfl
      rw [step_solo hturn, Option.map_none, Effect.bind_of_ok (check_of_none ..),
        run_soloLoop _ _ (Function.update_self ..), Function.update_idem]
      cases hloop : destroyOlder faulty.texts new
          (s.store.versions.map fun version => (version.number, version.state)) s.store with
      | mk result final =>
          cases result with
          | error e =>
              rw [Effect.bind_of_error hloop]
              rfl
          | ok =>
              rw [Effect.bind_of_ok hloop]
              rfl

/-- A run that has read the object goes on as `push`. -/
theorem run_push (s : State) (payload : Payload) (hpc : s.pc writer = .adding payload) :
    (machine updates).run s
        (⟨writer, faulty.add⟩ :: ⟨writer, faulty.list⟩ ::
          soloLoop writer faulty
            ((s.store.versions.map fun version => (version.number, version.state)) ++
              [(s.store.next, .enabled)])) =
      ⟨(push faulty.texts payload s.store).2,
        Function.update s.pc writer (ended (push faulty.texts payload s.store).1)⟩ := by
  have hadd : faulty.texts.add = faulty.add.map Fault.text := rfl
  rw [push, hadd, Machine.run_cons]
  cases faulty.add with
  | some fault =>
      have hturn : turn (updates writer).payload ((some fault).map Fault.text) (s.pc writer)
          s.store = (.failed ⟨"versions add" ++ " failed: " ++ excerpt fault.text⟩, s.store) := by
        rw [hpc]
        rfl
      rw [step_solo hturn, run_failed (Function.update_self ..)]
      · rw [Option.map_some, Effect.bind_of_error (check_of_fault ..)]
        rfl
      · intro event hevent
        rcases List.mem_cons.1 hevent with rfl | hloop
        · rfl
        · exact own_soloLoop _ event hloop
  | none =>
      have hturn : turn (updates writer).payload ((none : Option Fault).map Fault.text)
          (s.pc writer) s.store = (.listing s.store.next, s.store.add payload) := by
        rw [hpc]
        rfl
      have hlisted : (s.store.versions.map fun version => (version.number, version.state)) ++
          [(s.store.next, .enabled)] =
            (s.store.add payload).versions.map fun version =>
              (version.number, version.state) := by
        simp [Store.add]
      rw [step_solo hturn, hlisted, run_listing _ (Function.update_self ..), Function.update_idem,
        Option.map_none, Effect.bind_of_ok (check_of_none ..)]

/-- **The sequential merge is a run alone.** While the other run does not move, the
steps of one leave the secret that `merge` leaves, and end as it does. -/
theorem run_solo (s : State) (hidle : s.pc writer = .reading) :
    (machine updates).run s (solo writer faulty s.store) =
      ⟨(merge faulty.texts (updates writer).payload s.store).2,
        Function.update s.pc writer
          (ended (merge faulty.texts (updates writer).payload s.store).1)⟩ := by
  have haccess : faulty.texts.access = faulty.access.map Fault.text := rfl
  have hstore := current_store (faulty.access.map Fault.text) s.store
  rw [merge, haccess, solo, List.cons_append, Machine.run_cons]
  cases hread : current (faulty.access.map Fault.text) s.store with
  | mk result store =>
      rw [hread] at hstore
      subst hstore
      cases result with
      | error e =>
          have hturn : turn (updates writer).payload (faulty.access.map Fault.text) (s.pc writer)
              s.store = (.failed e, s.store) := by
            simp only [hidle, turn, hread]
          rw [step_solo hturn, run_failed (Function.update_self ..), Effect.bind_of_error hread]
          · rfl
          · intro event hevent
            rcases List.mem_append.1 hevent with hfirst | hloop
            · rcases List.mem_pair.1 hfirst with rfl | rfl
              · rfl
              · rfl
            · exact own_soloLoop _ event hloop
      | ok stored =>
          have hturn : turn (updates writer).payload (faulty.access.map Fault.text) (s.pc writer)
              s.store =
                (.adding (buildPayload (stored.update (updates writer).payload)), s.store) := by
            simp only [hidle, turn, hread]
          rw [step_solo hturn, Effect.bind_of_ok hread]
          have hpush := @run_push updates writer faulty
            ⟨s.store, Function.update s.pc writer
              (.adding (buildPayload (stored.update (updates writer).payload)))⟩ _
              (Function.update_self ..)
          rw [Function.update_idem] at hpush
          exact hpush

end Solo

end DealFinder.Deploy.Merges
