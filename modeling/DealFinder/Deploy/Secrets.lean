/-
# The production secret

One secret holds every production key as a JSON object. Each write adds a version
and destroys the older ones. The model keeps the object a version's JSON spells.

Each `gcloud` step fails or succeeds as told by a fault, the text the failed
command prints. A step takes effect exactly when it reports success.
-/

import DealFinder.Math.Dict
import DealFinder.Math.Text
import DealFinder.Math.Transaction
import Mathlib.Data.List.Basic
import Mathlib.Data.List.Infix
import Mathlib.Data.String.Basic

namespace DealFinder.Deploy.Secrets

open DealFinder.Math

/-- `KEYS`. -/
def keys : List String :=
  ["DATABASE_URL", "BESTBUY_API_KEY", "EBAY_APP_ID", "EBAY_CERT_ID", "EDGE_SHARED_SECRET",
    "CLOUDFLARE_ACCOUNT_ID", "CLOUDFLARE_R2_TOKEN", "RESEND_API_KEY", "UNSUBSCRIBE_SECRET",
    "SENTRY_DSN", "HEALTHCHECK_PAGES_URL", "HEALTHCHECK_ALERTS_URL", "CLOUDFLARE_AI_TOKEN"]

theorem keys_nodup : keys.Nodup := by decide

/-- The object in a version of the secret. -/
abbrev Payload := Dict String String

/-- `build_payload`: only the contract keys that have a value. -/
def buildPayload (env : Payload) : Payload where
  entries := keys.filterMap fun key =>
    match env.get? key with
    | some value => if value = "" then none else some (key, value)
    | none => none
  nodup_keys := by
    have hkeys : ((keys.filterMap fun key =>
        match env.get? key with
        | some value => if value = "" then none else some (key, value)
        | none => none).map Prod.fst).Sublist keys := by
      induction keys with
      | nil => simp
      | cons key rest ih =>
          rw [List.filterMap_cons]
          cases env.get? key with
          | none => exact ih.cons key
          | some value =>
              by_cases hempty : value = ""
              · simp only [hempty, if_true]
                exact ih.cons key
              · simp only [if_neg hempty, List.map_cons]
                exact ih.cons_cons key
    exact keys_nodup.sublist hkeys

/-- The state of a version in Secret Manager. -/
inductive VersionState
  | enabled
  | disabled
  | destroyed
  deriving DecidableEq

/-- A version of the secret. -/
structure Version where
  number : ℕ
  state : VersionState
  payload : Payload

/-- The secret: its versions, oldest first, numbered in order. -/
structure Store where
  versions : List Version
  numbered : versions.Pairwise fun older newer => older.number < newer.number

namespace Store

/-- The number the next version gets. -/
def next (store : Store) : ℕ :=
  match store.versions.getLast? with
  | some latest => latest.number + 1
  | none => 1

theorem lt_next (store : Store) {version : Version} (h : version ∈ store.versions) :
    version.number < store.next := by
  obtain ⟨versions, hnumbered⟩ := store
  simp only at h
  rcases List.eq_nil_or_concat' versions with rfl | ⟨older, latest, rfl⟩
  · cases h
  · simp only [next, List.getLast?_append, List.getLast?_singleton, Option.some_or]
    rcases List.mem_append.1 h with hold | hlatest
    · have hlt := (List.pairwise_append.1 hnumbered).2.2 version hold latest (by simp)
      omega
    · rw [List.mem_singleton.1 hlatest]
      omega

/-- Append an enabled version. -/
def add (store : Store) (payload : Payload) : Store where
  versions := store.versions ++ [⟨store.next, .enabled, payload⟩]
  numbered := by
    refine List.pairwise_append.2 ⟨store.numbered, List.pairwise_singleton _ _, ?_⟩
    intro older holder newer hnewer
    rw [List.mem_singleton.1 hnewer]
    exact store.lt_next holder

/-- Destroy the version of a number. -/
def destroy (store : Store) (number : ℕ) : Store where
  versions := store.versions.map fun version =>
    if version.number = number then { version with state := .destroyed } else version
  numbered := by
    rw [List.pairwise_map]
    refine store.numbered.imp fun hlt => ?_
    split_ifs <;> exact hlt

/-- The newest version that is not destroyed. -/
def newest (store : Store) : Option Version :=
  (store.versions.filter fun version => decide (version.state ≠ .destroyed)).getLast?

end Store

/-- A `RuntimeError`, with its message. -/
structure RuntimeError where
  message : String
  deriving DecidableEq

/-- A sequence of `gcloud` steps. -/
abbrev Gcloud := Effect Store RuntimeError

/-- The faults of the steps of `push` and `current`: the text a failed step prints. -/
structure Faults where
  access : Option String
  add : Option String
  list : Option String
  destroy : ℕ → Option String

/-- `proc.stderr.strip()[:300]`. -/
def excerpt (stderr : String) : String := String.ofList ((strip stderr).toList.take 300)

/-- `_check`: a step with a fault raises, and has no effect. -/
def check {α : Type} (fault : Option String) (what : String) (step : Store → α × Store) :
    Gcloud α := fun store =>
  match fault with
  | some stderr => (.error ⟨what ++ " failed: " ++ excerpt stderr⟩, store)
  | none => (.ok (step store).1, (step store).2)

section Check

variable {α : Type} {store : Store}

theorem check_of_fault (stderr what : String) (step : Store → α × Store) :
    check (some stderr) what step store =
      (.error ⟨what ++ " failed: " ++ excerpt stderr⟩, store) := rfl

theorem check_of_none (what : String) (step : Store → α × Store) :
    check none what step store = (.ok (step store).1, (step store).2) := rfl

end Check

/-- What `versions access latest` prints: the object of the latest version, or an
error, which is a fault or says why there is nothing to read. -/
def access (fault : Option String) (store : Store) : Except String Payload :=
  match fault with
  | some stderr => .error stderr
  | none =>
      match store.versions.getLast? with
      | none => .error "NOT_FOUND"
      | some latest =>
          if latest.state = .enabled then .ok latest.payload else .error "FAILED_PRECONDITION"

/-- `current`: the stored object, or an empty one before the first version. -/
def current (fault : Option String) : Gcloud Payload := fun store =>
  match access fault store with
  | .ok payload => (.ok payload, store)
  | .error stderr =>
      if "NOT_FOUND".toList <:+: stderr.toList then (.ok .empty, store)
      else (.error ⟨"versions access failed: " ++ excerpt stderr⟩, store)

/-- The loop of `push` over the listed versions. -/
def destroyOlder (faults : Faults) (new : ℕ) : List (ℕ × VersionState) → Gcloud Unit
  | [] => pure ()
  | (number, state) :: rest => do
      if number ≠ new ∧ state ≠ .destroyed then
        check (faults.destroy number) ("destroy v" ++ toString number)
          fun store => ((), store.destroy number)
      destroyOlder faults new rest

section DestroyOlder

variable {faults : Faults} {new number : ℕ} {state : VersionState}
variable {rest : List (ℕ × VersionState)} {store : Store}

theorem destroyOlder_skip (hskip : ¬ (number ≠ new ∧ state ≠ .destroyed)) :
    destroyOlder faults new ((number, state) :: rest) store =
      destroyOlder faults new rest store := by
  rw [destroyOlder, if_neg hskip]

theorem destroyOlder_of_fault (hold : number ≠ new ∧ state ≠ .destroyed) {stderr : String}
    (hfault : faults.destroy number = some stderr) :
    destroyOlder faults new ((number, state) :: rest) store =
      (.error ⟨"destroy v" ++ toString number ++ " failed: " ++ excerpt stderr⟩, store) := by
  rw [destroyOlder, if_pos hold, hfault]
  exact Effect.bind_of_error (check_of_fault ..)

theorem destroyOlder_of_none (hold : number ≠ new ∧ state ≠ .destroyed)
    (hfault : faults.destroy number = none) :
    destroyOlder faults new ((number, state) :: rest) store =
      destroyOlder faults new rest (store.destroy number) := by
  rw [destroyOlder, if_pos hold, hfault]
  exact Effect.bind_of_ok (check_of_none ..)

end DestroyOlder

/-- `push`: add a version, destroy every older one, return the new number. -/
def push (faults : Faults) (payload : Payload) : Gcloud ℕ := do
  let new ← check faults.add "versions add" fun store => (store.next, store.add payload)
  let listed ← check faults.list "versions list" fun store =>
    (store.versions.map fun version => (version.number, version.state), store)
  destroyOlder faults new listed
  pure new

/-- `merge`: write the stored object with updates over it. -/
def merge (faults : Faults) (updates : Payload) : Gcloud ℕ := do
  let stored ← current faults.access
  push faults (buildPayload (stored.update updates))

end DealFinder.Deploy.Secrets
