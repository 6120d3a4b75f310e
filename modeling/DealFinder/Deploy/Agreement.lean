/-
# Postgres and the secret

A provisioning run that stops before the new version is written changes neither
store, and one that ends normally changes both. Between the two lies the rest of
`push`: once the version is added, a failure to list or destroy the older ones,
or to commit, rolls the password back and leaves the new version (`Torn`).
-/

import DealFinder.Deploy.LoginRole

namespace DealFinder.Deploy.LoginRole

open DealFinder.Math DealFinder.Deploy.Secrets

/-! ## Writing the secret -/

/-- The last version of a store. -/
def Ends (store : Store) (version : Version) : Prop :=
  ∃ older, store.versions = older ++ [version]

theorem Ends.newest {store : Store} {version : Version} (h : Ends store version)
    (hstate : version.state ≠ .destroyed) : store.newest = some version := by
  obtain ⟨older, hversions⟩ := h
  rw [Store.newest, hversions, List.filter_append, List.filter_cons_of_pos (by simpa using hstate)]
  simp

theorem Ends.destroy {store : Store} {version : Version} (h : Ends store version) {number : ℕ}
    (hne : version.number ≠ number) : Ends (store.destroy number) version := by
  obtain ⟨older, hversions⟩ := h
  simp only [Ends, Store.destroy, hversions, List.map_append, List.map_singleton, if_neg hne]
  exact ⟨_, rfl⟩

theorem ends_add (store : Store) (payload : Payload) :
    Ends (store.add payload) ⟨store.next, .enabled, payload⟩ := ⟨store.versions, rfl⟩

section Push

variable {faults : Secrets.Faults} {store : Store}

/-- The loop over the older versions never touches the newest one, and ends
normally exactly when no version it has to destroy has a fault. -/
theorem destroyOlder_spec (faults : Secrets.Faults) {version : Version}
    (listed : List (ℕ × VersionState)) (h : Ends store version) :
    Ends (destroyOlder faults version.number listed store).2 version ∧
      ((destroyOlder faults version.number listed store).1 = .ok () ↔
        ∀ entry ∈ listed, entry.1 ≠ version.number → entry.2 ≠ .destroyed →
          faults.destroy entry.1 = none) := by
  induction listed generalizing store with
  | nil => exact ⟨h, by simp [destroyOlder, pure]⟩
  | cons entry rest ih =>
      obtain ⟨number, state⟩ := entry
      by_cases hold : number ≠ version.number ∧ state ≠ .destroyed
      · cases hfault : faults.destroy number with
        | some stderr =>
            rw [destroyOlder_of_fault hold hfault]
            exact ⟨h, by simp [hold.1, hold.2, hfault]⟩
        | none =>
            rw [destroyOlder_of_none hold hfault]
            have hrest := ih (h.destroy hold.1.symm)
            exact ⟨hrest.1, hrest.2.trans (by simp [hfault])⟩
      · rw [destroyOlder_skip hold]
        have hrest := ih h
        refine ⟨hrest.1, hrest.2.trans ?_⟩
        simp only [List.forall_mem_cons]
        constructor
        · exact fun hall => ⟨fun hne hstate => absurd ⟨hne, hstate⟩ hold, hall⟩
        · exact And.right

/-- Listing and destroying the older versions meets no fault. -/
def Cleans (faults : Secrets.Faults) (store : Store) : Prop :=
  faults.list = none ∧
    ∀ version ∈ store.versions, version.state ≠ .destroyed →
      faults.destroy version.number = none

/-- The listing that follows an addition, after which only older versions go. -/
theorem destroyOlder_listed (faults : Secrets.Faults) (store : Store) (payload : Payload) :
    (destroyOlder faults store.next
        ((store.add payload).versions.map fun version => (version.number, version.state))
        (store.add payload)).1 = .ok () ↔
      ∀ version ∈ store.versions, version.state ≠ .destroyed →
        faults.destroy version.number = none := by
  rw [(destroyOlder_spec faults _ (ends_add store payload)).2]
  simp only [Store.add, List.map_append, List.forall_mem_append, List.forall_mem_map,
    List.map_singleton, List.forall_mem_singleton]
  constructor
  · exact fun hall version hversion =>
      hall.1 version hversion (store.lt_next hversion).ne
  · exact fun hall => ⟨fun version hversion _ => hall version hversion, fun hne => absurd rfl hne⟩

/-- Once the version is added it stays the newest, whatever fails after it. -/
theorem push_spec (store : Store) (payload : Payload) (hadd : faults.add = none) :
    Ends (push faults payload store).2 ⟨store.next, .enabled, payload⟩ ∧
      ((∃ number, (push faults payload store).1 = .ok number) ↔ Cleans faults store) := by
  have hends := ends_add store payload
  have hloop := (destroyOlder_spec faults
    ((store.add payload).versions.map fun version => (version.number, version.state)) hends).1
  have hclean := destroyOlder_listed faults store payload
  rw [push, hadd, Effect.bind_of_ok (check_of_none ..)]
  cases hlist : faults.list with
  | some stderr =>
      rw [Effect.bind_of_error (check_of_fault ..)]
      exact ⟨hends, by simp [Cleans, hlist]⟩
  | none =>
      rw [Effect.bind_of_ok (check_of_none ..)]
      rw [Cleans, ← hclean]
      cases hout : destroyOlder faults store.next
          ((store.add payload).versions.map fun version => (version.number, version.state))
          (store.add payload) with
      | mk result final =>
          rw [hout] at hloop
          cases result with
          | error e =>
              rw [Effect.bind_of_error hout]
              exact ⟨hloop, by simp⟩
          | ok =>
              rw [Effect.bind_of_ok hout]
              exact ⟨hloop, by simp [hlist, pure]⟩

/-- Reading the stored object meets no fault and finds something to read. -/
def Reads (fault : Option String) (store : Store) : Prop :=
  ∃ stored, (current fault store).1 = .ok stored

theorem current_store (fault : Option String) (store : Store) :
    (current fault store).2 = store := by
  unfold current
  split
  · rfl
  · split_ifs <;> rfl

/-- Without the addition, a merge leaves the secret alone. -/
theorem merge_of_not_adds (updates : Payload)
    (h : ¬ (Reads faults.access store ∧ faults.add = none)) :
    ∃ e, merge faults updates store = (.error e, store) := by
  cases hread : current faults.access store with
  | mk result after =>
      obtain rfl : after = store := by
        rw [← current_store faults.access store, hread]
      cases result with
      | error e => exact ⟨e, Effect.bind_of_error hread⟩
      | ok stored =>
          cases hadd : faults.add with
          | none => exact absurd ⟨⟨stored, by rw [hread]⟩, hadd⟩ h
          | some stderr =>
              refine ⟨⟨"versions add failed: " ++ excerpt stderr⟩, ?_⟩
              rw [merge, Effect.bind_of_ok hread, push, hadd,
                Effect.bind_of_error (check_of_fault ..)]
              rfl

/-- A merge that adds a version keeps it the newest, with the updates in it. -/
theorem merge_of_adds (updates : Payload) (hread : Reads faults.access store)
    (hadd : faults.add = none) :
    (∃ (stored : Payload) (number : ℕ), Ends (merge faults updates store).2
        ⟨number, .enabled, buildPayload (stored.update updates)⟩) ∧
      ((∃ number, (merge faults updates store).1 = .ok number) ↔ Cleans faults store) := by
  obtain ⟨stored, hstored⟩ := hread
  have hcurrent : current faults.access store = (.ok stored, store) :=
    Prod.ext hstored (current_store ..)
  have hpush := push_spec store (buildPayload (stored.update updates)) hadd
  rw [merge, Effect.bind_of_ok hcurrent]
  exact ⟨⟨stored, store.next, hpush.1⟩, hpush.2⟩

end Push

/-- The contract keys survive in a payload when they have a value. -/
theorem get?_buildPayload {env : Payload} {key value : String} (hkey : key ∈ keys)
    (hvalue : env.get? key = some value) (hne : value ≠ "") :
    (buildPayload env).get? key = some value := by
  rw [Dict.get?_eq_some_iff]
  exact List.mem_filterMap.2 ⟨key, hkey, by rw [hvalue]; exact if_neg hne⟩

/-! ## Changing the role -/

section RunAll

variable {faults : ℕ → Option String}

/-- Statements neither commit nor touch the secret. -/
theorem runAll_frame (faults : ℕ → Option String) (number : ℕ) (stmts : List Stmt)
    (c : Conn Pg Store) :
    (runAll faults number stmts c).2.committed = c.committed ∧
      (runAll faults number stmts c).2.world = c.world := by
  induction stmts generalizing number c with
  | nil => exact ⟨rfl, rfl⟩
  | cons stmt rest ih =>
      have hframe := Session.execute_frame (runStmt (faults number) stmt) c
      rw [runAll]
      cases hout : Session.execute (runStmt (faults number) stmt) c with
      | mk result next =>
          rw [hout] at hframe
          cases result with
          | error e =>
              rw [Effect.bind_of_error hout]
              exact hframe
          | ok =>
              rw [Effect.bind_of_ok hout]
              exact ⟨(ih ..).1.trans hframe.1, (ih ..).2.trans hframe.2⟩

/-- A statement with a fault ends the transaction with an exception. -/
theorem runAll_of_fault {number : ℕ} {stmts : List Stmt} {c : Conn Pg Store}
    (h : ∃ i < stmts.length, faults (number + i) ≠ none) :
    ∃ e, (runAll faults number stmts c).1 = .error e := by
  induction stmts generalizing number c with
  | nil =>
      obtain ⟨i, hi, -⟩ := h
      cases hi
  | cons stmt rest ih =>
      rw [runAll]
      cases hout : Session.execute (runStmt (faults number) stmt) c with
      | mk result next =>
          cases result with
          | error e =>
              rw [Effect.bind_of_error hout]
              exact ⟨e, rfl⟩
          | ok =>
              rw [Effect.bind_of_ok hout]
              apply ih
              obtain ⟨i, hi, hfault⟩ := h
              cases i with
              | zero =>
                  -- A fault at the first statement would have failed it.
                  obtain ⟨text, htext⟩ := Option.ne_none_iff_exists'.1 hfault
                  rw [Nat.add_zero] at htext
                  have herror : ∀ pg, runStmt (faults number) stmt pg =
                      .error (.operationalError text) := fun pg => by simp only [runStmt, htext]
                  have hnever := Session.execute_of_error herror c
                  rw [hout] at hnever
                  obtain ⟨e, he⟩ := hnever
                  cases he
              | succ i =>
                  rw [Nat.add_succ, ← Nat.succ_add] at hfault
                  exact ⟨i, Nat.lt_of_succ_lt_succ hi, hfault⟩

/-- Grants that meet no fault keep the role's verifier. -/
theorem runAll_grants (committed : Pg) (store : Store) (number : ℕ) (texts : List String)
    (role : Role) (h : ∀ i < texts.length, faults (number + i) = none) :
    ∃ granted : Role, granted.verifier = role.verifier ∧
      runAll faults number (texts.map .grant) ⟨committed, .active (some role), store⟩ =
        (.ok (), ⟨committed, .active (some granted), store⟩) := by
  induction texts generalizing number role with
  | nil => exact ⟨role, rfl, rfl⟩
  | cons text rest ih =>
      have hfirst : runStmt (faults number) (.grant text) (some role) =
          .ok ((), some { role with grants := role.grants.insert text }) := by
        simp only [runStmt, show faults number = none from h 0 (Nat.succ_pos _)]
      obtain ⟨granted, hverifier, hrest⟩ :=
        ih (number + 1) { role with grants := role.grants.insert text } fun i hi => by
          rw [Nat.succ_add, ← Nat.add_succ]
          exact h (i + 1) (Nat.succ_lt_succ hi)
      refine ⟨granted, hverifier, ?_⟩
      rw [List.map_cons, runAll, Effect.bind_of_ok (Session.execute_active hfirst)]
      exact hrest

end RunAll

/-- The statements meet no fault, and the role is there exactly when rotated. -/
def RunsDdl (faults : Faults) (rotate : Bool) (pg : Pg) : Prop :=
  (∀ i < 5, faults.ddl i = none) ∧ rotate = pg.isSome

section Ddl

variable {faults : Faults} {rotate : Bool} {pg : Pg}

/-- When they run, the open transaction holds the role with the new password. -/
theorem roleStatements_of_runs (env : Env) (store : Store) (h : RunsDdl faults rotate pg) :
    ∃ role : Role, role.verifier.password = env.token ∧
      Effect.mapError roleExists (runAll faults.ddl 0 (roleStatements env.token env.salt rotate))
          ⟨pg, .idle, store⟩ = (.ok (), ⟨pg, .active (some role), store⟩) := by
  obtain ⟨hfaults, hrotate⟩ := h
  have hfirst : ∃ role : Role, role.verifier.password = env.token ∧
      runStmt (faults.ddl 0) (if rotate then .alterRole ⟨env.token, env.salt, 4096⟩
        else .createRole ⟨env.token, env.salt, 4096⟩) pg = .ok ((), some role) := by
    rw [hfaults 0 (by decide), hrotate]
    cases pg with
    | none => exact ⟨⟨⟨env.token, env.salt, 4096⟩, []⟩, rfl, rfl⟩
    | some role => exact ⟨{ role with verifier := ⟨env.token, env.salt, 4096⟩ }, rfl, rfl⟩
  obtain ⟨role, hpassword, hrun⟩ := hfirst
  obtain ⟨granted, hverifier, hgrants⟩ :=
    runAll_grants pg store 1 grantStatements role fun i hi => hfaults (1 + i) (by
      simp only [grantStatements, List.length_cons, List.length_nil] at hi
      omega)
  refine ⟨granted, hverifier ▸ hpassword, ?_⟩
  have hall : runAll faults.ddl 0 (roleStatements env.token env.salt rotate) ⟨pg, .idle, store⟩ =
      (.ok (), ⟨pg, .active (some granted), store⟩) := by
    rw [roleStatements, runAll, Effect.bind_of_ok (Session.execute_idle hrun)]
    exact hgrants
  simp only [Effect.mapError, hall]
  rfl

/-- Otherwise they raise, and nothing is committed or written. -/
theorem roleStatements_of_not_runs (env : Env) (store : Store) (h : ¬ RunsDdl faults rotate pg) :
    ∃ e c, Effect.mapError roleExists
          (runAll faults.ddl 0 (roleStatements env.token env.salt rotate)) ⟨pg, .idle, store⟩ =
        (.error e, c) ∧ c.committed = pg ∧ c.world = store := by
  have hframe := runAll_frame faults.ddl 0 (roleStatements env.token env.salt rotate)
    ⟨pg, .idle, store⟩
  have herror : ∃ e, (runAll faults.ddl 0 (roleStatements env.token env.salt rotate)
      ⟨pg, .idle, store⟩).1 = .error e := by
    by_cases hfaults : ∀ i < 5, faults.ddl i = none
    · -- Then the first statement finds the role where it should not, or not where it should.
      have hmismatch : rotate ≠ pg.isSome := fun hrotate => h ⟨hfaults, hrotate⟩
      have hfirst : ∃ e, runStmt (faults.ddl 0) (if rotate then
          .alterRole ⟨env.token, env.salt, 4096⟩
          else .createRole ⟨env.token, env.salt, 4096⟩) pg = .error e := by
        rw [hfaults 0 (by decide)]
        cases pg with
        | none =>
            obtain rfl : rotate = true := by simpa using hmismatch
            exact ⟨_, rfl⟩
        | some role =>
            obtain rfl : rotate = false := by simpa using hmismatch
            exact ⟨_, rfl⟩
      obtain ⟨e, hfirst⟩ := hfirst
      refine ⟨.raised e, ?_⟩
      rw [roleStatements, runAll, Effect.bind_of_error (Session.execute_idle_error hfirst)]
    · push Not at hfaults
      obtain ⟨i, hi, hfault⟩ := hfaults
      refine runAll_of_fault ⟨i, ?_, by rwa [Nat.zero_add]⟩
      simpa [roleStatements, grantStatements] using hi
  obtain ⟨e, herror⟩ := herror
  refine ⟨roleExists e, _, ?_, hframe.1, hframe.2⟩
  simp only [Effect.mapError, herror]
  rfl

end Ddl

/-! ## The two stores -/

/-- The `DATABASE_URL` of the newest version that is not destroyed. -/
def storedUrl (store : Store) : Option String :=
  store.newest.bind fun version => version.payload.get? "DATABASE_URL"

/-- The newest version's URL has a password in it. -/
def Holds (ref : String) (store : Store) (password : String) : Prop :=
  ∃ host, storedUrl store = some (poolerUrl ref host password)

/-- The role and the newest version have one password, or neither exists. -/
def Agrees (ref : String) (pg : Pg) (store : Store) : Prop :=
  match pg with
  | some role => Holds ref store role.verifier.password
  | none => storedUrl store = none

/-- Both stores have the new password. -/
def ChangesBoth (env : Env) (pg : Pg) (store : Store) : Prop :=
  pg.map (·.verifier.password) = some env.token ∧
    storedUrl store = some (poolerUrl env.ref env.host env.token)

/-- Both stores have what they had. -/
def ChangesNeither (pg pg' : Pg) (store store' : Store) : Prop :=
  pg' = pg ∧ storedUrl store' = storedUrl store

/-- What `provision` promises of its outcome: the stores agree, both on the new
password or both on the old one. -/
def SetsBothOrNeither (env : Env) (pg : Pg) (store : Store)
    (outcome : Except (DbError ProvisionError) ℕ × Pg × Store) : Prop :=
  Agrees env.ref outcome.2.1 outcome.2.2 ∧
    (ChangesBoth env outcome.2.1 outcome.2.2 ∨
      ChangesNeither pg outcome.2.1 store outcome.2.2)

theorem poolerUrl_ne_empty (ref host password : String) : poolerUrl ref host password ≠ "" := by
  unfold poolerUrl
  generalize "postgresql://dealfinder_svc." ++ ref ++ ":" = lead
  generalize ":6543/postgres" = path
  generalize "?sslmode=verify-full&sslrootcert=" = query
  generalize quote "/app/dealfinder/certs/supabase-prod-ca-2021.crt" = ca
  simp only [ne_eq, String.append_eq_empty_iff]
  simp

/-- A pooler URL has one password in it. -/
theorem poolerUrl_password {ref host host' password password' : String}
    (h : poolerUrl ref host password = poolerUrl ref host' password') : password = password' := by
  unfold poolerUrl at h
  generalize "postgresql://dealfinder_svc." ++ ref ++ ":" = lead at h
  generalize ":6543/postgres" = path at h
  generalize "?sslmode=verify-full&sslrootcert=" = query at h
  generalize quote "/app/dealfinder/certs/supabase-prod-ca-2021.crt" = ca at h
  have hat : "@".toList = ['@'] := by decide
  have hchars := congrArg String.toList h
  simp only [String.toList_append, List.append_assoc, List.append_cancel_left_eq, hat,
    List.singleton_append] at hchars
  exact quote_append_inj (by decide) hchars

/-- The merged URL is the one a reader of the newest version gets. -/
theorem storedUrl_of_ends {store : Store} {stored : Payload} {number : ℕ} {env : Env}
    (h : Ends store ⟨number, .enabled, buildPayload (stored.update (databaseUrl env))⟩) :
    storedUrl store = some (poolerUrl env.ref env.host env.token) := by
  rw [storedUrl, h.newest VersionState.noConfusion, Option.bind_some]
  apply get?_buildPayload (by decide)
  · exact stored.get?_set_self "DATABASE_URL" _
  · exact poolerUrl_ne_empty env.ref env.host env.token

/-- With the new URL stored, the stores agree on the new password when the role has it. -/
theorem setsBoth {env : Env} {pg : Pg} {store : Store}
    {outcome : Except (DbError ProvisionError) ℕ × Pg × Store}
    (hpassword : outcome.2.1.map (·.verifier.password) = some env.token)
    (hurl : storedUrl outcome.2.2 = some (poolerUrl env.ref env.host env.token)) :
    SetsBothOrNeither env pg store outcome := by
  obtain ⟨result, changed, final⟩ := outcome
  obtain ⟨role, rfl, htoken⟩ := Option.map_eq_some_iff.1 hpassword
  refine ⟨⟨env.host, ?_⟩, Or.inl ⟨hpassword, hurl⟩⟩
  rw [hurl, htoken]

/-- With the new URL stored, only the new password agrees with it. -/
theorem password_of_agrees {env : Env} {pg : Pg} {store : Store} (h : Agrees env.ref pg store)
    (hurl : storedUrl store = some (poolerUrl env.ref env.host env.token)) :
    pg.map (·.verifier.password) = some env.token := by
  cases pg with
  | none =>
      have habsent : storedUrl store = none := h
      rw [hurl] at habsent
      cases habsent
  | some role =>
      obtain ⟨host, hholds⟩ := h
      rw [hurl, Option.some.injEq] at hholds
      exact congrArg some (poolerUrl_password hholds).symm

section Provision

variable {faults : Faults} {env : Env} {rotate : Bool} {pg : Pg} {store : Store}

/-- The run gets as far as adding the new version. -/
def ReachesWrite (faults : Faults) (rotate : Bool) (pg : Pg) (store : Store) : Prop :=
  faults.pooler = none ∧ Reads faults.readSecret store ∧ faults.connect = none ∧
    RunsDdl faults rotate pg ∧ Reads faults.merge.access store ∧ faults.merge.add = none

/-- The new version is added, and then something fails: listing or destroying the
older versions, or the commit. -/
def Torn (faults : Faults) (rotate : Bool) (pg : Pg) (store : Store) : Prop :=
  ReachesWrite faults rotate pg store ∧ ¬ (Cleans faults.merge store ∧ faults.commit = none)

/-- Once the statements ran, the body ends as the merge does, with its changes to the
secret made and those to the role still open. -/
theorem provisionBody_of_runs (env : Env) (store : Store) (h : RunsDdl faults rotate pg) :
    ∃ role : Role, role.verifier.password = env.token ∧
      provisionBody faults env rotate ⟨pg, .idle, store⟩ =
        ((merge faults.merge (databaseUrl env) store).1.mapError
            fun e => .raised (.runtimeError e.message),
          ⟨pg, .active (some role), (merge faults.merge (databaseUrl env) store).2⟩) := by
  obtain ⟨role, hpassword, hrole⟩ := roleStatements_of_runs env store h
  refine ⟨role, hpassword, ?_⟩
  rw [provisionBody, Effect.bind_of_ok hrole]
  simp only [Session.outside, Effect.mapError]
  cases (merge faults.merge (databaseUrl env) store).1 <;> rfl

/-- A run that stops before the addition changes nothing. -/
theorem provision_of_not_reaches (env : Env) (h : ¬ ReachesWrite faults rotate pg store) :
    (provision faults env rotate pg store).2 = (pg, store) := by
  unfold provision
  cases hpooler : faults.pooler with
  | some text => rfl
  | none =>
      cases hread : (current faults.readSecret store).1 with
      | error e => rfl
      | ok stored =>
          cases hconnect : faults.connect with
          | some text => rfl
          | none =>
              simp only
              by_cases hddl : RunsDdl faults rotate pg
              · have hmerge : ¬ (Reads faults.merge.access store ∧ faults.merge.add = none) :=
                  fun hadds => h ⟨hpooler, ⟨stored, hread⟩, hconnect, hddl, hadds⟩
                obtain ⟨role, -, hbody⟩ := provisionBody_of_runs env store hddl
                obtain ⟨e, hmerge⟩ := merge_of_not_adds (databaseUrl env) hmerge
                rw [hmerge] at hbody
                rw [Session.connect_of_error hbody]
              · obtain ⟨e, c, hrole, hcommitted, hworld⟩ :=
                  roleStatements_of_not_runs env store hddl
                have hbody :
                    provisionBody faults env rotate ⟨pg, .idle, store⟩ = (.error e, c) := by
                  rw [provisionBody, Effect.bind_of_error hrole]
                rw [Session.connect_of_error hbody, hcommitted, hworld]

/-- A run that reaches the addition leaves the new URL in the newest version, and
changes the role exactly when nothing fails after it. -/
theorem provision_of_reaches (env : Env) (h : ReachesWrite faults rotate pg store) :
    storedUrl (provision faults env rotate pg store).2.2 =
        some (poolerUrl env.ref env.host env.token) ∧
      (Cleans faults.merge store ∧ faults.commit = none →
        (provision faults env rotate pg store).2.1.map (·.verifier.password) = some env.token) ∧
      (¬ (Cleans faults.merge store ∧ faults.commit = none) →
        (provision faults env rotate pg store).2.1 = pg) := by
  obtain ⟨hpooler, ⟨stored, hread⟩, hconnect, hddl, hreads, hadd⟩ := h
  obtain ⟨role, hpassword, hbody⟩ := provisionBody_of_runs env store hddl
  obtain ⟨⟨payload, number, hends⟩, hclean⟩ := merge_of_adds (databaseUrl env) hreads hadd
  have hurl := storedUrl_of_ends hends
  unfold provision
  simp only [hpooler, hread, hconnect]
  cases hmerge : merge faults.merge (databaseUrl env) store with
  | mk result final =>
      rw [hmerge] at hurl hclean hbody
      cases result with
      | error e =>
          have hfails : ¬ Cleans faults.merge store := fun hcleans => by
            obtain ⟨_, hok⟩ := hclean.2 hcleans
            cases hok
          rw [Session.connect_of_error hbody]
          exact ⟨hurl, fun hdone => absurd hdone.1 hfails, fun _ => rfl⟩
      | ok new =>
          have hcleans : Cleans faults.merge store := hclean.1 ⟨new, rfl⟩
          cases hcommit : faults.commit with
          | none =>
              rw [Session.connect_of_ok hbody]
              exact ⟨hurl, fun _ => congrArg some hpassword, fun hnot => absurd ⟨hcleans, rfl⟩ hnot⟩
          | some text =>
              rw [Session.connect_of_commit_error hbody]
              exact ⟨hurl, fun hdone => absurd hdone.2 (Option.some_ne_none text), fun _ => rfl⟩

/-- The prior agreement survives exactly the runs that are not torn, but for the
token that happens to be the old password. -/
theorem provision_agrees_iff (hprior : Agrees env.ref pg store) :
    SetsBothOrNeither env pg store (provision faults env rotate pg store) ↔
      ¬ Torn faults rotate pg store ∨ pg.map (·.verifier.password) = some env.token := by
  by_cases hreach : ReachesWrite faults rotate pg store
  · obtain ⟨hurl, hdone, hundone⟩ := provision_of_reaches env hreach
    by_cases hall : Cleans faults.merge store ∧ faults.commit = none
    · have hnot : ¬ Torn faults rotate pg store := fun htorn => htorn.2 hall
      refine iff_of_true ?_ (Or.inl hnot)
      exact setsBoth (hdone hall) hurl
    · have htorn : Torn faults rotate pg store := ⟨hreach, hall⟩
      have hpg := hundone hall
      constructor
      · intro hsets
        apply Or.inr
        have hagrees := hsets.1
        rw [hpg] at hagrees
        exact password_of_agrees hagrees hurl
      · intro h
        have hold := h.resolve_left (not_not_intro htorn)
        exact setsBoth ((congrArg _ hpg).trans hold) hurl
  · have hsame := provision_of_not_reaches env hreach
    have hnot : ¬ Torn faults rotate pg store := fun htorn => hreach htorn.1
    refine iff_of_true ?_ (Or.inl hnot)
    rw [SetsBothOrNeither, hsame]
    exact ⟨hprior, Or.inr ⟨rfl, rfl⟩⟩

end Provision

/-- A secret with one version, which has a role's URL. -/
def firstVersion (url : String) : Store where
  versions := [⟨1, .enabled, Dict.empty.set "DATABASE_URL" url⟩]
  numbered := List.pairwise_singleton _ _

/-- A role with its password. -/
def loginRole (password : String) : Role := ⟨⟨password, "salt", 4096⟩, grantStatements⟩

/-- Every step succeeds, but for listing the versions. -/
def listFaults (list : Option String) : Faults where
  pooler := none
  readSecret := none
  connect := none
  ddl := fun _ => none
  merge := ⟨none, none, list, fun _ => none⟩
  commit := none

/-- A rotation without a fault sets both. -/
theorem provision_agrees_iff_rotation :
    SetsBothOrNeither ⟨"ref", "host", "new", "salt"⟩ (some (loginRole "old"))
      (firstVersion (poolerUrl "ref" "host" "old"))
      (provision (listFaults none) ⟨"ref", "host", "new", "salt"⟩ true (some (loginRole "old"))
        (firstVersion (poolerUrl "ref" "host" "old"))) := by
  have hprior : Agrees "ref" (some (loginRole "old"))
      (firstVersion (poolerUrl "ref" "host" "old")) := ⟨"host", rfl⟩
  apply (provision_agrees_iff hprior).2
  apply Or.inl
  rintro ⟨-, hfails⟩
  exact hfails ⟨⟨rfl, fun _ _ _ => rfl⟩, rfl⟩

/-- A rotation that cannot list the versions leaves the old password in Postgres
and the new one in the secret. -/
theorem failed_listing_tears :
    ¬ ∀ (faults : Faults) (env : Env) (rotate : Bool) (pg : Pg) (store : Store),
      Agrees env.ref pg store →
        SetsBothOrNeither env pg store (provision faults env rotate pg store) := by
  intro hall
  have hsets := hall (listFaults (some "DEADLINE_EXCEEDED")) ⟨"ref", "host", "new", "salt"⟩ true
    (some (loginRole "old")) (firstVersion (poolerUrl "ref" "host" "old")) ⟨"host", rfl⟩
  have hreach : ReachesWrite (listFaults (some "DEADLINE_EXCEEDED")) true (some (loginRole "old"))
      (firstVersion (poolerUrl "ref" "host" "old")) :=
    ⟨rfl, ⟨_, rfl⟩, rfl, ⟨fun _ _ => rfl, rfl⟩, ⟨_, rfl⟩, rfl⟩
  obtain ⟨hurl, -, hundone⟩ := provision_of_reaches ⟨"ref", "host", "new", "salt"⟩ hreach
  have hpg := hundone fun hclean => by cases hclean.1.1
  have hpassword := password_of_agrees hsets.1 hurl
  rw [hpg] at hpassword
  exact absurd hpassword (by decide)

end DealFinder.Deploy.LoginRole
