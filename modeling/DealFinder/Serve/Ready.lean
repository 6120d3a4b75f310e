/-
# Is the database there?

The app asks for the schema at boot. Account routes ask again while it was not there, and
`/readyz` asks for the health of the database, each at most every 30 seconds. What either finds
is remembered.

The memory is a summary of the log of what was found (`Remembers`), and the log justifies every
answer (`visit_justified`): an account request is turned away only while no probe found the
database, and `/readyz` reports what the last probe found less than 30 seconds ago.

Times are exact rationals, and a visit receives the readings its clock would return. Visits do
not overlap.
-/

import DealFinder.Math.Machine
import Mathlib.Algebra.Order.Ring.Rat

namespace DealFinder.Serve

open DealFinder.Math

/-- `_DB_RECHECK_S`. -/
def dbRecheckS : ℚ := 30

/-- `_READY_TTL_S`. -/
def readyTtlS : ℚ := 30

/-- What `/readyz` reports. -/
inductive Health
  | disabled
  | down
  | pending
  | current
  deriving DecidableEq

/-- The status of a report. -/
def Health.status : Health → ℕ
  | .disabled | .current => 200
  | .down | .pending => 503

/-- `_DB`, `_DB_CHECKED_AT` and `_READY`. -/
structure Ready where
  db : Bool
  checkedAt : ℚ
  ready : Option (ℚ × Health)

/-- What a visit finds if it looks: the readings of the clock, and the answers of the database. -/
structure Look where
  tested : ℚ
  stamped : ℚ
  /-- `migrate.schema_ready(url)`. -/
  schemaReady : Bool
  /-- `db.ping()`. -/
  ping : Bool
  /-- `db.schema_current()`. -/
  schemaCurrent : Bool

/-- What a probe found, and when. -/
inductive Found
  | schema (time : ℚ) (ready : Bool)
  | health (time : ℚ) (health : Health)
  deriving DecidableEq

/-- The health that a look finds. -/
def Look.health (look : Look) : Health :=
  if !look.ping then .down else if !look.schemaCurrent then .pending else .current

namespace Ready

/-- The module's assignments, with `DATABASE_URL` set or not. -/
def boot (databaseUrl : Bool) (now : ℚ) (schemaReady : Bool) : Ready :=
  ⟨databaseUrl && schemaReady, now, none⟩

/-- `_maybe_recheck_db`, and what it found. -/
def maybeRecheckDb (databaseUrl : Bool) (look : Look) (r : Ready) : Option Found × Ready :=
  if r.db || !databaseUrl then (none, r)
  else if look.tested - r.checkedAt < dbRecheckS then (none, r)
  else (some (.schema look.stamped look.schemaReady),
    { r with db := look.schemaReady, checkedAt := look.stamped })

/-- The first part of `readyz`: look again unless the last look is young. -/
def refresh (look : Look) (r : Ready) : Option Found × Ready :=
  if r.ready.all fun last => readyTtlS ≤ look.tested - last.1 then
    (some (.health look.stamped look.health),
      { r with db := r.db || look.health = .current, ready := some (look.stamped, look.health) })
  else (none, r)

/-- `readyz`. -/
def readyz (databaseUrl : Bool) (look : Look) (r : Ready) : Health × Option Found × Ready :=
  if !databaseUrl then (.disabled, none, r)
  else
    let (found, r) := r.refresh look
    ((r.ready.map Prod.snd).getD .disabled, found, r)

end Ready

/-- What asks. -/
inductive Visit
  | account (look : Look)
  | readyz (look : Look)

/-- Its look. -/
def Visit.look : Visit → Look
  | .account look | .readyz look => look

/-- What it is told. -/
inductive Told
  /-- An account request goes on, or is turned away. -/
  | account (db : Bool)
  | health (health : Health)
  deriving DecidableEq

/-- A visit: what is told and found. -/
def Ready.visit (databaseUrl : Bool) (r : Ready) : Visit → (Told × Option Found) × Ready
  | .account look =>
      let (found, r) := r.maybeRecheckDb databaseUrl look
      ((.account r.db, found), r)
  | .readyz look =>
      let (health, found, r) := r.readyz databaseUrl look
      ((.health health, found), r)

/-- The memory, driven by visits. -/
def readiness (databaseUrl : Bool) : Machine Ready Visit (Told × Option Found) :=
  ⟨Ready.visit databaseUrl⟩

/-! ## The log -/

namespace Found

/-- The time of a probe. -/
def time : Found → ℚ
  | .schema time _ | .health time _ => time

/-- The probe found the database with its schema. -/
def up : Found → Bool
  | .schema _ ready => ready
  | .health _ found => found = .current

/-- A probe of the schema, or of the health. -/
def isSchema : Found → Bool
  | .schema .. => true
  | .health .. => false

/-- What a probe of the health found. -/
def health? : Found → Option (ℚ × Health)
  | .schema .. => none
  | .health time found => some (time, found)

end Found

/-- The probe at boot. -/
def bootLog (now : ℚ) (schemaReady : Bool) : List Found := [.schema now schemaReady]

/-- What a run of visits finds. -/
def foundIn (databaseUrl : Bool) (r : Ready) (visits : List Visit) : List Found :=
  (readiness databaseUrl).observe (fun _ answer => answer.2) r visits

/-- The clock goes forward within a visit, and from visit to visit. -/
structure Clocked (start : ℚ) (visits : List Visit) : Prop where
  begins : ∀ visit ∈ visits, start ≤ visit.look.tested
  orderly : ∀ visit ∈ visits, visit.look.tested ≤ visit.look.stamped
  disjoint : visits.Pairwise fun earlier later => earlier.look.stamped ≤ later.look.tested

/-- Probes of one kind are far apart. -/
def Spaced (log : List Found) : Prop :=
  log.Pairwise fun earlier later =>
    earlier.isSchema = later.isSchema → dbRecheckS ≤ later.time - earlier.time

/-- A memory that summarises a log, all of the past. -/
structure Remembers (log : List Found) (now : ℚ) (r : Ready) : Prop where
  db : r.db = log.any Found.up
  checkedAt : ∀ found ∈ log, found.isSchema = true → found.time ≤ r.checkedAt
  checked : ∃ ready, .schema r.checkedAt ready ∈ log
  ready : r.ready = (log.filterMap Found.health?).getLast?
  readyAt : ∀ last ∈ r.ready, ∀ found ∈ log, found.isSchema = false → found.time ≤ last.1
  past : ∀ found ∈ log, found.time ≤ now
  spaced : Spaced log

section Log

variable {log : List Found} {now later : ℚ} {r : Ready} {look : Look}

theorem Remembers.mono (h : Remembers log now r) (hle : now ≤ later) : Remembers log later r :=
  { h with past := fun found hfound => (h.past found hfound).trans hle }

theorem remembers_boot (now : ℚ) (schemaReady : Bool) :
    Remembers (bootLog now schemaReady) now (.boot true now schemaReady) where
  db := (Bool.or_false _).symm
  checkedAt := by
    intro found hfound _
    rw [List.mem_singleton.1 hfound]
    exact le_rfl
  checked := ⟨schemaReady, List.mem_singleton.2 rfl⟩
  ready := rfl
  readyAt := fun last hlast => by cases hlast
  past := by
    intro found hfound
    rw [List.mem_singleton.1 hfound]
    exact le_rfl
  spaced := List.pairwise_singleton _ _

theorem Spaced.concat {found : Found} (h : Spaced log)
    (hfound : ∀ earlier ∈ log, earlier.isSchema = found.isSchema →
      dbRecheckS ≤ found.time - earlier.time) : Spaced (log ++ [found]) := by
  refine List.pairwise_append.2 ⟨h, List.pairwise_singleton _ _, fun earlier hearlier last hlast => ?_⟩
  rw [List.mem_singleton.1 hlast]
  exact hfound earlier hearlier

theorem Remembers.past_concat (h : Remembers log now r) (hlater : now ≤ later) {found : Found}
    (hfound : found.time ≤ later) : ∀ probe ∈ log ++ [found], probe.time ≤ later := by
  intro probe hprobe
  rcases List.mem_append.1 hprobe with hpast | hnew
  · exact (h.past probe hpast).trans hlater
  · rw [List.mem_singleton.1 hnew]
    exact hfound

/-- A probe of the schema enters the log and the memory alike. -/
theorem Remembers.schema (h : Remembers log now r) (hdb : r.db = false) (hlater : now ≤ later)
    (hold : dbRecheckS ≤ later - r.checkedAt) (ready : Bool) :
    Remembers (log ++ [.schema later ready]) later
      { r with db := ready, checkedAt := later } where
  db := by
    rw [List.any_append, ← h.db, hdb]
    exact (Bool.or_false ready).symm
  checkedAt := fun found hfound _ => h.past_concat hlater le_rfl found hfound
  checked := ⟨ready, List.mem_append_right _ (List.mem_singleton.2 rfl)⟩
  ready := by
    rw [List.filterMap_append, h.ready]
    exact congrArg List.getLast? (List.append_nil _).symm
  readyAt := by
    intro last hlast found hfound hhealth
    rcases List.mem_append.1 hfound with hpast | hnew
    · exact h.readyAt last hlast found hpast hhealth
    · rw [List.mem_singleton.1 hnew] at hhealth
      cases hhealth
  past := h.past_concat hlater le_rfl
  spaced := by
    refine h.spaced.concat fun earlier hearlier hschema => hold.trans ?_
    exact sub_le_sub_left (h.checkedAt earlier hearlier hschema) later

/-- A probe of the health enters the log and the memory alike. -/
theorem Remembers.health (h : Remembers log now r) (hlater : now ≤ later)
    (hold : ∀ last ∈ r.ready, dbRecheckS ≤ later - last.1) (found : Health) :
    Remembers (log ++ [.health later found]) later
      { r with db := r.db || found = .current, ready := some (later, found) } where
  db := by
    rw [List.any_append, ← h.db]
    exact congrArg (r.db || ·) (Bool.or_false _).symm
  checkedAt := by
    intro probe hprobe hschema
    rcases List.mem_append.1 hprobe with hpast | hnew
    · exact h.checkedAt probe hpast hschema
    · rw [List.mem_singleton.1 hnew] at hschema
      cases hschema
  checked := by
    obtain ⟨ready, hready⟩ := h.checked
    exact ⟨ready, List.mem_append_left _ hready⟩
  ready := by
    rw [List.filterMap_append]
    exact List.getLast?_concat.symm
  readyAt := by
    intro last hlast probe hprobe _
    obtain rfl := Option.some.inj hlast
    exact h.past_concat hlater le_rfl probe hprobe
  past := h.past_concat hlater le_rfl
  spaced := by
    refine h.spaced.concat fun earlier hearlier hkind => ?_
    cases hready : r.ready with
    | none =>
        have hnone : log.filterMap Found.health? = [] :=
          List.getLast?_eq_none_iff.1 (h.ready.symm.trans hready)
        cases earlier with
        | schema => cases hkind
        | health time probe =>
            have hmem : (time, probe) ∈ log.filterMap Found.health? :=
              List.mem_filterMap.2 ⟨_, hearlier, rfl⟩
            rw [hnone] at hmem
            cases hmem
    | some last =>
        refine (hold last hready).trans ?_
        exact sub_le_sub_left (h.readyAt last hready earlier hearlier hkind) later

/-! ## Visits -/

/-- What the log has to say for what a visit that looked at `tested` is told. -/
def Justified (log : List Found) (tested : ℚ) : Told → Prop
  | .account true => ∃ found ∈ log, found.up = true
  | .account false => (∀ found ∈ log, found.up = false) ∧
      ∃ time ready, .schema time ready ∈ log ∧ tested - time < dbRecheckS
  | .health health => ∃ time, (log.filterMap Found.health?).getLast? = some (time, health) ∧
      tested - time < readyTtlS

theorem Remembers.justified_account (h : Remembers log now r)
    (hyoung : r.db = false → look.tested - r.checkedAt < dbRecheckS) :
    Justified log look.tested (.account r.db) := by
  cases hdb : r.db with
  | true => exact List.any_eq_true.1 (h.db.symm.trans hdb)
  | false =>
      obtain ⟨ready, hready⟩ := h.checked
      have hdown : log.any Found.up = false := h.db.symm.trans hdb
      refine ⟨fun found hfound => ?_, r.checkedAt, ready, hready, hyoung hdb⟩
      exact Bool.eq_false_iff.2 fun hup => List.any_eq_false.1 hdown found hfound hup

theorem Remembers.justified_health (h : Remembers log now r) {last : ℚ × Health}
    (hready : r.ready = some last) (hyoung : look.tested - last.1 < readyTtlS) :
    Justified log look.tested (.health last.2) :=
  ⟨last.1, h.ready.symm.trans hready, hyoung⟩

/-- **One visit.** From a memory of a log, a visit leaves a memory of the log with what it found,
and that log justifies what it is told. -/
theorem Remembers.visit {visit : Visit} (h : Remembers log visit.look.tested r)
    (horderly : visit.look.tested ≤ visit.look.stamped) :
    Remembers (log ++ (r.visit true visit).1.2.toList) visit.look.stamped (r.visit true visit).2 ∧
      Justified (log ++ (r.visit true visit).1.2.toList) visit.look.tested
        (r.visit true visit).1.1 := by
  cases visit with
  | account look =>
      simp only [Ready.visit, Ready.maybeRecheckDb, Bool.not_true, Bool.or_false]
      split_ifs with hdb hyoung
      · rw [Option.toList_none, List.append_nil]
        exact ⟨h.mono horderly, h.justified_account fun hno => absurd hdb (by rw [hno]; decide)⟩
      · rw [Option.toList_none, List.append_nil]
        exact ⟨h.mono horderly, h.justified_account fun _ => hyoung⟩
      · have hold : dbRecheckS ≤ look.stamped - r.checkedAt :=
          (not_lt.1 hyoung).trans (sub_le_sub_right horderly _)
        have hnext := h.schema (Bool.eq_false_iff.2 hdb) horderly hold look.schemaReady
        refine ⟨hnext, hnext.justified_account fun _ => ?_⟩
        exact (sub_nonpos.2 horderly).trans_lt (by decide +kernel)
  | readyz look =>
      simp only [Ready.visit, Ready.readyz, Ready.refresh, Bool.not_true, Bool.false_eq_true,
        if_false]
      split_ifs with hold
      · have hfar : ∀ last ∈ r.ready, dbRecheckS ≤ look.stamped - last.1 := by
          intro last hlast
          rw [show r.ready = some last from hlast] at hold
          exact (of_decide_eq_true hold).trans (sub_le_sub_right horderly _)
        have hnext := h.health horderly hfar look.health
        refine ⟨hnext, hnext.justified_health rfl ?_⟩
        exact (sub_nonpos.2 horderly).trans_lt (by decide +kernel)
      · rw [Option.toList_none, List.append_nil]
        cases hready : r.ready with
        | none => rw [hready] at hold; exact absurd rfl hold
        | some last =>
            rw [hready] at hold
            refine ⟨h.mono horderly, h.justified_health hready ?_⟩
            exact not_le.1 fun hle => hold (decide_eq_true hle)

/-! ## Runs -/

theorem Clocked.left {start : ℚ} {first second : List Visit} (h : Clocked start (first ++ second)) :
    Clocked start first :=
  ⟨fun visit hvisit => h.begins visit (List.mem_append_left _ hvisit),
    fun visit hvisit => h.orderly visit (List.mem_append_left _ hvisit),
    (List.pairwise_append.1 h.disjoint).1⟩

theorem Clocked.settled_le {start : ℚ} {past : List Visit} {visit : Visit}
    (h : Clocked start (past ++ [visit])) :
    ∀ earlier ∈ past, earlier.look.stamped ≤ visit.look.tested := fun earlier hearlier =>
  (List.pairwise_append.1 h.disjoint).2.2 earlier hearlier visit (List.mem_singleton.2 rfl)

/-- After a run of visits the memory summarises what boot and the visits found. -/
theorem run_remembers {start : ℚ} (schemaReady : Bool) (visits : List Visit)
    (hclock : Clocked start visits) {now : ℚ} (hstart : start ≤ now)
    (hnow : ∀ visit ∈ visits, visit.look.stamped ≤ now) :
    Remembers (bootLog start schemaReady ++
        foundIn true (.boot true start schemaReady) visits) now
      ((readiness true).run (.boot true start schemaReady) visits) := by
  induction visits using List.reverseRecOn generalizing now with
  | nil =>
      rw [foundIn, Machine.observe, List.append_nil]
      exact (remembers_boot start schemaReady).mono hstart
  | append_singleton past visit ih =>
      have hlast : visit ∈ past ++ [visit] := List.mem_append_right _ (List.mem_singleton.2 rfl)
      have hpast := ih hclock.left (hclock.begins visit hlast) hclock.settled_le
      have hstep := (hpast.visit (hclock.orderly visit hlast)).1
      rw [foundIn, Machine.observe_concat, Machine.run_concat, ← List.append_assoc]
      exact hstep.mono (hnow visit hlast)

end Log

/-- **What the app knows of its database.** In any run of visits that do not overlap, probes of
one kind are at least 30 seconds apart and the log of what they found justifies what a visit is
told: an account request goes on once some probe found the database with its schema and is turned
away only if none did and the last one for it is less than 30 seconds old; `/readyz` reports what
the last probe of the health found, less than 30 seconds before. -/
theorem visit_justified (start : ℚ) (schemaReady : Bool) (past : List Visit) (visit : Visit)
    (hclock : Clocked start (past ++ [visit])) :
    Spaced (bootLog start schemaReady ++
        foundIn true (.boot true start schemaReady) (past ++ [visit])) ∧
      Justified (bootLog start schemaReady ++
        foundIn true (.boot true start schemaReady) (past ++ [visit])) visit.look.tested
        ((readiness true).answerAfter (.boot true start schemaReady) past visit).1 := by
  have hlast : visit ∈ past ++ [visit] := List.mem_append_right _ (List.mem_singleton.2 rfl)
  have hpast := run_remembers schemaReady past hclock.left (hclock.begins visit hlast)
    hclock.settled_le
  have hstep := hpast.visit (hclock.orderly visit hlast)
  rw [foundIn, Machine.observe_concat, ← List.append_assoc]
  exact ⟨hstep.1.spaced, hstep.2⟩

/-- A look that takes a second, at a database whose schema is there or pending. -/
def lookAt (tested : ℚ) (up : Bool) : Look := ⟨tested, tested + 1, up, true, up⟩

/-- A visit before the schema is there, and one after. -/
def comingUp : List Visit := [.account (lookAt 40 false), .readyz (lookAt 45 true)]

theorem visit_justified_comingUp :
    Spaced (bootLog 0 false ++ foundIn true (.boot true 0 false)
        (comingUp ++ [.account (lookAt 50 true)])) ∧
      Justified (bootLog 0 false ++ foundIn true (.boot true 0 false)
        (comingUp ++ [.account (lookAt 50 true)])) 50
        ((readiness true).answerAfter (.boot true 0 false) comingUp (.account (lookAt 50 true))).1 :=
  visit_justified 0 false comingUp (.account (lookAt 50 true))
    { begins := by decide +kernel
      orderly := by decide +kernel
      disjoint := by decide +kernel }

end DealFinder.Serve
