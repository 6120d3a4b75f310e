/-
# The deploy commands

What an operator runs against production. `secrets.py push` stores the keys of the env file over
what is stored, and draws the generated tokens that are missing; `secrets.py edge` hands the stored
edge secret to the Worker; `create_login_role.py` provisions the database's role.

`Contents` says what the secret is for: a value for each key, which a command writes over. Whatever
`gcloud` steps fail, a command writes all it has to or nothing (`step_contents`). So in every run of
commands the role's password stays the one in the secret, no key is lost, a token is drawn once, the
database's address never comes from an env file (`commands_keep`), and the Worker keeps up with the
edge secret it was handed (`worker_keeps_up`).
-/

import DealFinder.Deploy.LostUpdate
import DealFinder.Math.Machine

namespace DealFinder.Deploy.Commands

open DealFinder.Math DealFinder.Deploy.Secrets
open DealFinder.Deploy.LoginRole (Pg Env ProvisionError databaseUrl poolerUrl provision
  provisionBody_of_runs provision_of_not_reaches provision_of_reaches setsBoth SetsBothOrNeither
  Ends push_spec current_store ReachesWrite Cleans Torn storedUrl Agrees poolerUrl_ne_empty)
open DealFinder.Deploy.Merges (storedObject storedObject_of_ends eq_storedObject
  get?_buildPayload_iff)

/-! ## The commands -/

/-- `GENERATED`. -/
def generated : List String := ["EDGE_SHARED_SECRET", "UNSUBSCRIBE_SECRET"]

theorem generated_subset_keys : generated ⊆ keys := by decide

/-- `NEVER_FROM_ENV_FILE`. -/
def neverFromEnvFile : List String := ["DATABASE_URL"]

/-- A `.env` as `dotenv_values` reads it, where a key may stand without a value. -/
abbrev EnvFile := Dict String (Option String)

/-- The keys with a value. -/
def valued (values : EnvFile) : List (String × String) :=
  values.entries.filterMap fun entry => (entry.2.filter (· ≠ "")).map fun value => (entry.1, value)

/-- `_env_file`. -/
def envFile : Option EnvFile → Payload
  | none => .empty
  | some values => .ofPairs (valued values)

/-- What `push` takes from the file. -/
def fromFile (file : Option EnvFile) : Payload :=
  (envFile file).filter fun key _ => decide (key ∈ keys) && decide (key ∉ neverFromEnvFile)

/-- `dict.setdefault`. -/
def setDefault (d : Payload) (key value : String) : Payload :=
  if (d.get? key).isSome then d else d.set key value

/-- What `push` writes over the stored object, with the tokens it draws. -/
def merged (file : Option EnvFile) (token : String → String) (stored : Payload) : Payload :=
  generated.foldl (fun d key => setDefault d key (token key)) (stored.update (fromFile file))

/-- How `push` ends: for want of a `.env`, or with a version and the names of the keys in it. -/
inductive Pushed
  | noEnvFile
  | stored (version : ℕ) (names : List String)

/-- `push`, the command. -/
def pushCommand (file : Option EnvFile) (noEnvFile : Bool) (token : String → String)
    (faults : Faults) : Gcloud Pushed :=
  if file.isNone = true ∧ noEnvFile = false then pure .noEnvFile
  else do
    let stored ← current faults.access
    let version ← push faults (buildPayload (merged file token stored))
    pure (.stored version
      (keys.filter fun key => ((merged file token stored).get? key).any (· ≠ "")))

/-- What the commands work on: the role, the secret, and the Worker's `EDGE_SHARED_SECRET`. -/
structure Production where
  pg : Pg
  store : Store
  worker : Option String

/-- How a command ends, when nothing raises. -/
inductive Done
  | pushed (how : Pushed)
  | noEdgeSecret
  | edgeSet
  | provisioned (version : ℕ)

/-- What a command raises. -/
inductive Raised
  | runtimeError (e : RuntimeError)
  | calledProcessError (text : String)
  | provision (e : DbError ProvisionError)

/-- `edge`, the command: the stored secret goes to `wrangler`, which may fail. What it stores of the
text it reads is a parameter. -/
def edgeCommand (wrangler : String → String) (access put : Option String) (s : Production) :
    Except Raised Done × Production :=
  match (current access s.store).1 with
  | .error e => (.error (.runtimeError e), s)
  | .ok stored =>
      match (stored.get? "EDGE_SHARED_SECRET").filter (· ≠ "") with
      | none => (.ok .noEdgeSecret, s)
      | some edge =>
          match put with
          | some text => (.error (.calledProcessError text), s)
          | none => (.ok .edgeSet, { s with worker := some (wrangler edge) })

/-- A command, with what the environment supplies and the faults of its steps. -/
inductive Command
  | push (file : Option EnvFile) (noEnvFile : Bool) (token : String → String) (faults : Faults)
  | edge (access put : Option String)
  | provision (env : Env) (rotate : Bool) (faults : LoginRole.Faults)

/-- Commands run one after another. -/
def production (wrangler : String → String) :
    Machine Production Command (Except Raised Done) where
  step s command :=
    match command with
    | .push file noEnvFile token faults =>
        (((pushCommand file noEnvFile token faults s.store).1.map .pushed).mapError .runtimeError,
          { s with store := (pushCommand file noEnvFile token faults s.store).2 })
    | .edge access put => edgeCommand wrangler access put s
    | .provision env rotate faults =>
        (((provision faults env rotate s.pg s.store).1.map .provisioned).mapError .provision,
          ⟨(provision faults env rotate s.pg s.store).2.1,
            (provision faults env rotate s.pg s.store).2.2, s.worker⟩)

section Reported

variable {α β ε ε' : Type} {x : Except ε α} {f : α → β} {g : ε → ε'}

theorem ok_of_reported (hinj : Function.Injective f) {a : α}
    (h : (x.map f).mapError g = .ok (f a)) : x = .ok a := by
  cases x with
  | error e => cases h
  | ok found => exact congrArg Except.ok (hinj (Except.ok.inj h))

theorem error_of_reported {e : ε'} (h : (x.map f).mapError g = .error e) :
    ∃ cause, x = .error cause := by
  cases x with
  | error cause => exact ⟨cause, rfl⟩
  | ok found => cases h

end Reported

/-! ## What the secret is for -/

/-- What the secret holds, key by key. -/
abbrev Contents := String → Option String

/-- What a command makes of a key when it writes. -/
def Command.writes : Command → String → Option String → Option String
  | .push file _ token _ => fun key old =>
      ((fromFile file).get? key).or (old.or (if key ∈ generated then some (token key) else none))
  | .edge _ _ => fun _ old => old
  | .provision env _ _ => fun key old =>
      if key = "DATABASE_URL" then some (poolerUrl env.ref env.host env.token) else old

/-- The command has a value of its own for the key. -/
def Command.Sets : Command → String → Prop
  | .push file _ _ _ => fun key => key ∈ fromFile file
  | .edge _ _ => fun _ => False
  | .provision _ _ _ => fun key => key = "DATABASE_URL"

/-- What is stored. -/
def contents (store : Store) : Contents := (storedObject store).get?

/-- Only contract keys, each with a value. -/
def Tidy (payload : Payload) : Prop :=
  ∀ key value, payload.get? key = some value → key ∈ keys ∧ value ≠ ""

/-- The secret is new, or its latest version can be read and is tidy. -/
def Sound (store : Store) : Prop :=
  store.versions = [] ∨
    ∃ latest, Ends store latest ∧ latest.state = .enabled ∧ Tidy latest.payload

/-- A step that fails does not say that there is no secret. -/
def Truthful (fault : Option String) : Prop :=
  ∀ text, fault = some text → ¬ "NOT_FOUND".toList <:+: text.toList

/-- What is relied on of the environment: such faults, and tokens that are not empty. -/
def Command.Honest : Command → Prop
  | .push _ _ token faults => Truthful faults.access ∧ ∀ key, token key ≠ ""
  | .edge access _ => Truthful access
  | .provision _ _ faults => Truthful faults.merge.access

/-! ## What is pushed -/

section Pushed

variable {file : Option EnvFile} {token : String → String} {stored : Payload} {key value : String}

theorem get?_setDefault (d : Payload) (key value other : String) :
    (setDefault d key value).get? other =
      (d.get? other).or (if other = key then some value else none) := by
  unfold setDefault
  by_cases hother : other = key
  · subst hother
    cases h : d.get? other with
    | none =>
        rw [Option.isSome_none, if_neg Bool.false_ne_true, Dict.get?_set_self, if_pos rfl,
          Option.none_or]
    | some old => rw [Option.isSome_some, if_pos rfl, h, Option.some_or]
  · rw [if_neg hother, Option.or_none]
    split_ifs
    · rfl
    · exact Dict.get?_set_of_ne _ _ hother

/-- Each key of the merged object. -/
theorem get?_merged (key : String) :
    (merged file token stored).get? key =
      ((fromFile file).get? key).or
        ((stored.get? key).or (if key ∈ generated then some (token key) else none)) := by
  have htokens : (if key = "EDGE_SHARED_SECRET" then some (token "EDGE_SHARED_SECRET") else none).or
      (if key = "UNSUBSCRIBE_SECRET" then some (token "UNSUBSCRIBE_SECRET") else none) =
        if key ∈ generated then some (token key) else none := by
    by_cases hedge : key = "EDGE_SHARED_SECRET"
    · subst hedge
      rfl
    · by_cases hunsubscribe : key = "UNSUBSCRIBE_SECRET"
      · subst hunsubscribe
        rfl
      · rw [if_neg hedge, if_neg hunsubscribe, if_neg (by simp [generated, hedge, hunsubscribe])]
        rfl
  rw [← htokens, ← Option.or_assoc, ← Option.or_assoc, ← Dict.get?_update]
  simp only [merged, generated, List.foldl_cons, List.foldl_nil, get?_setDefault]

/-- What is taken from the file: contract keys with a value, but for the database's address. -/
theorem of_fromFile (h : (fromFile file).get? key = some value) :
    key ∈ keys ∧ key ∉ neverFromEnvFile ∧ value ≠ "" := by
  rw [fromFile, Dict.get?_filter, Option.filter_eq_some_iff] at h
  obtain ⟨hvalue, hkey⟩ := h
  rw [Bool.and_eq_true, decide_eq_true_eq, decide_eq_true_eq] at hkey
  refine ⟨hkey.1, hkey.2, ?_⟩
  cases file with
  | none => cases hvalue
  | some values =>
      obtain ⟨entry, -, hentry⟩ := List.mem_filterMap.1 (Dict.mem_of_get?_ofPairs hvalue)
      obtain ⟨found, hfound, heq⟩ := Option.map_eq_some_iff.1 hentry
      obtain ⟨-, hne⟩ := Option.filter_eq_some_iff.1 hfound
      rw [← (Prod.mk.inj heq).2]
      exact of_decide_eq_true hne

theorem tidy_buildPayload (env : Payload) : Tidy (buildPayload env) := by
  intro key value h
  obtain ⟨hkey, -, hne⟩ := get?_buildPayload_iff.1 h
  exact ⟨hkey, hne⟩

/-- Nothing of a tidy object is left out. -/
theorem get?_buildPayload_of_tidy {env : Payload} (h : Tidy env) (key : String) :
    (buildPayload env).get? key = env.get? key := by
  ext value
  rw [get?_buildPayload_iff]
  exact ⟨fun hbuilt => hbuilt.2.1, fun hvalue => ⟨(h key value hvalue).1, hvalue,
    (h key value hvalue).2⟩⟩

theorem tidy_merged (hstored : Tidy stored) (htoken : ∀ key, token key ≠ "") :
    Tidy (merged file token stored) := by
  intro key value h
  rw [get?_merged, Option.or_eq_some_iff, Option.or_eq_some_iff] at h
  rcases h with hfile | ⟨-, hold | ⟨-, hdrawn⟩⟩
  · exact ⟨(of_fromFile hfile).1, (of_fromFile hfile).2.2⟩
  · exact hstored key value hold
  · obtain ⟨hkey, heq⟩ := Option.ite_none_right_eq_some.1 hdrawn
    rw [← Option.some.inj heq]
    exact ⟨generated_subset_keys hkey, htoken key⟩

theorem get?_updated (env : Env) (key : String) :
    (stored.update (databaseUrl env)).get? key =
      if key = "DATABASE_URL" then some (poolerUrl env.ref env.host env.token)
      else stored.get? key := by
  rw [Dict.get?_update, databaseUrl, Dict.get?_set]
  split_ifs
  · rfl
  · exact Option.none_or

theorem tidy_updated (hstored : Tidy stored) (env : Env) :
    Tidy (stored.update (databaseUrl env)) := by
  intro key value h
  rw [get?_updated] at h
  split_ifs at h with hkey
  · rw [hkey, ← Option.some.inj h]
    exact ⟨by decide, poolerUrl_ne_empty env.ref env.host env.token⟩
  · exact hstored key value h

end Pushed

/-! ## What a command writes -/

section Writes

variable {store : Store} {fault : Option String} {stored : Payload}

theorem Sound.tidy (h : Sound store) : Tidy (storedObject store) := by
  rcases h with hempty | ⟨latest, hends, -, htidy⟩
  · rw [storedObject, hempty]
    exact fun key value hvalue => by cases hvalue
  · rw [storedObject_of_ends hends]
    exact htidy

theorem sound_of_ends {payload : Payload} {number : ℕ} (htidy : Tidy payload)
    (h : Ends store ⟨number, .enabled, payload⟩) : Sound store :=
  .inr ⟨_, h, rfl, htidy⟩

/-- A reader gets the stored object or raises. -/
theorem current_of_truthful (h : Truthful fault) (stored : Payload)
    (hstored : (current fault store).1 = .ok stored) : stored = storedObject store := by
  cases fault with
  | none => exact eq_storedObject (Prod.ext hstored (current_store none store))
  | some text =>
      rw [current, access] at hstored
      simp only [if_neg (h text rfl)] at hstored
      cases hstored

/-- A push adds its version or changes nothing. -/
theorem push_store (faults : Faults) (payload : Payload) (store : Store) :
    (push faults payload store).2 = store ∨
      Ends (push faults payload store).2 ⟨store.next, .enabled, payload⟩ := by
  cases hadd : faults.add with
  | none => exact .inr (push_spec store payload hadd).1
  | some text =>
      left
      rw [push, hadd, Effect.bind_of_error (check_of_fault ..)]

/-- A push leaves a tidy object. -/
theorem tidy_push (faults : Faults) (env : Payload) (htidy : Tidy (storedObject store)) :
    Tidy (storedObject (push faults (buildPayload env) store).2) := by
  rcases push_store faults (buildPayload env) store with hsame | hends
  · rwa [hsame]
  · rw [storedObject_of_ends hends]
    exact tidy_buildPayload env

/-- What follows a read goes on with what was read, if the read does not fail. -/
theorem read_any (fault : Option String) {α : Type} (next : Payload → Gcloud α) (store : Store) :
    ((current fault >>= next) store).2 = store ∨
      ∃ stored, (current fault store).1 = .ok stored ∧
        ((current fault >>= next) store).2 = (next stored store).2 := by
  have hsame := current_store fault store
  cases hread : current fault store with
  | mk answer after =>
      obtain rfl : after = store := by rw [← hsame, hread]
      cases answer with
      | error e =>
          left
          rw [Effect.bind_of_error hread]
      | ok stored =>
          right
          exact ⟨stored, rfl, by rw [Effect.bind_of_ok hread]⟩

/-- A read that does not fail goes on with the stored object. -/
theorem read_then (htruthful : Truthful fault) {α : Type} (next : Payload → Gcloud α)
    (store : Store) :
    ((current fault >>= next) store).2 = store ∨
      ((current fault >>= next) store).2 = (next (storedObject store) store).2 := by
  refine (read_any fault next store).imp_right ?_
  rintro ⟨stored, hread, hnext⟩
  rw [hnext, current_of_truthful htruthful stored hread]

/-- What is returned after a push does not matter to the secret. -/
theorem push_then {α : Type} (faults : Faults) (payload : Payload) (result : ℕ → α)
    (store : Store) :
    ((push faults payload >>= fun version => pure (result version)) store).2 =
      (push faults payload store).2 := by
  cases hpush : push faults payload store with
  | mk answer after =>
      cases answer with
      | error e => rw [Effect.bind_of_error hpush]
      | ok version =>
          rw [Effect.bind_of_ok hpush]
          rfl

/-- Either nothing changes or every key is written. -/
def Written (command : Command) (before after : Store) : Prop :=
  after = before ∨
    (Sound after ∧ ∀ key, contents after key = command.writes key (contents before key))

theorem written_push (hsound : Sound store) {file : Option EnvFile} (noEnvFile : Bool)
    {token : String → String} {faults : Faults} (hfaults : Truthful faults.access)
    (htoken : ∀ key, token key ≠ "") :
    Written (.push file noEnvFile token faults) store
      (pushCommand file noEnvFile token faults store).2 := by
  unfold pushCommand
  split_ifs
  · exact .inl rfl
  · refine (read_then hfaults _ store).elim .inl fun hnext => ?_
    rw [hnext, push_then]
    refine (push_store ..).imp id fun hends => ?_
    refine ⟨sound_of_ends (tidy_buildPayload _) hends, fun key => ?_⟩
    rw [contents, storedObject_of_ends hends]
    exact (get?_buildPayload_of_tidy (tidy_merged hsound.tidy htoken) key).trans (get?_merged key)

/-- What provisioning does to the secret is what its merge does, if anything; and when it raises,
Postgres is unchanged. -/
theorem provision_frame (faults : LoginRole.Faults) (env : Env) (rotate : Bool) (pg : Pg)
    (store : Store) :
    ((provision faults env rotate pg store).2.2 = store ∨
      (provision faults env rotate pg store).2.2 =
        (Secrets.merge faults.merge (databaseUrl env) store).2) ∧
      ∀ e, (provision faults env rotate pg store).1 = .error e →
        (provision faults env rotate pg store).2.1 = pg := by
  by_cases hreach : ReachesWrite faults rotate pg store
  · obtain ⟨hpooler, ⟨stored, hread⟩, hconnect, hddl, -, -⟩ := hreach
    obtain ⟨role, -, hbody⟩ := provisionBody_of_runs env store hddl
    unfold LoginRole.provision
    simp only [hpooler, hread, hconnect]
    cases hmerge : Secrets.merge faults.merge (databaseUrl env) store with
    | mk result final =>
        rw [hmerge] at hbody
        cases result with
        | error e =>
            rw [Session.connect_of_error hbody]
            exact ⟨.inr rfl, fun _ _ => rfl⟩
        | ok new =>
            cases faults.commit with
            | none =>
                rw [Session.connect_of_ok hbody]
                exact ⟨.inr rfl, fun _ herror => by cases herror⟩
            | some text =>
                rw [Session.connect_of_commit_error hbody]
                exact ⟨.inr rfl, fun _ _ => rfl⟩
  · rw [provision_of_not_reaches env hreach]
    exact ⟨.inl rfl, fun _ _ => rfl⟩

theorem written_provision (hsound : Sound store) (env : Env) (rotate : Bool)
    {faults : LoginRole.Faults} (hfaults : Truthful faults.merge.access) (pg : Pg) :
    Written (.provision env rotate faults) store (provision faults env rotate pg store).2.2 := by
  have hnext := read_then hfaults
    (fun stored => push faults.merge (buildPayload (stored.update (databaseUrl env)))) store
  rcases (provision_frame faults env rotate pg store).1 with hsame | hmerge
  · exact .inl hsame
  · rw [hmerge]
    refine hnext.elim .inl fun hnext => ?_
    rw [show (Secrets.merge faults.merge (databaseUrl env) store).2 = _ from hnext]
    refine (push_store ..).imp id fun hends => ?_
    refine ⟨sound_of_ends (tidy_buildPayload _) hends, fun key => ?_⟩
    rw [contents, storedObject_of_ends hends]
    exact (get?_buildPayload_of_tidy (tidy_updated hsound.tidy env) key).trans
      (get?_updated env key)

end Writes

/-! ## A push that succeeds -/

section Single

variable {faults : Faults} {store : Store} {new : ℕ} {payload : Payload}

/-- A version that outlives the loop was there before, and no entry of the listing condemned it. -/
theorem destroyOlder_spared (listed : List (ℕ × VersionState))
    (hok : (destroyOlder faults new listed store).1 = .ok ()) (version : Version)
    (hmem : version ∈ (destroyOlder faults new listed store).2.versions)
    (hstate : version.state ≠ .destroyed) :
    version ∈ store.versions ∧
      ∀ entry ∈ listed, entry.1 = version.number → entry.1 = new ∨ entry.2 = .destroyed := by
  induction listed generalizing store with
  | nil => exact ⟨hmem, fun _ hentry => by cases hentry⟩
  | cons entry rest ih =>
      obtain ⟨number, state⟩ := entry
      by_cases hold : number ≠ new ∧ state ≠ .destroyed
      · cases hfault : faults.destroy number with
        | some text =>
            rw [destroyOlder_of_fault hold hfault] at hok
            cases hok
        | none =>
            rw [destroyOlder_of_none hold hfault] at hok hmem
            obtain ⟨hthere, hrest⟩ := ih hok hmem
            obtain ⟨before, hbefore, heq⟩ := List.mem_map.1 hthere
            have hne : before.number ≠ number := by
              intro hnumber
              rw [if_pos hnumber] at heq
              exact hstate (heq ▸ rfl)
            rw [if_neg hne] at heq
            subst heq
            exact ⟨hbefore, List.forall_mem_cons.2 ⟨fun h => absurd h.symm hne, hrest⟩⟩
      · rw [destroyOlder_skip hold] at hok hmem
        obtain ⟨hthere, hrest⟩ := ih hok hmem
        refine ⟨hthere, List.forall_mem_cons.2 ⟨fun _ => ?_, hrest⟩⟩
        exact (Decidable.not_and_iff_not_or_not.1 hold).imp not_not.1 not_not.1

/-- A `gcloud` step that succeeds has no fault, and takes effect. -/
theorem check_eq_ok {α : Type} {fault : Option String} {what : String} {step : Store → α × Store}
    {result : α} {after : Store} (h : check fault what step store = (.ok result, after)) :
    fault = none ∧ step store = (result, after) := by
  cases fault with
  | some text => cases h
  | none =>
      obtain ⟨hresult, hafter⟩ := Prod.mk.inj h
      exact ⟨rfl, Prod.ext (Except.ok.inj hresult) hafter⟩

/-- After a push that returns, its version is the newest and the only one left. -/
theorem push_single {number : ℕ} {after : Store}
    (hok : push faults payload store = (.ok number, after)) :
    Ends after ⟨number, .enabled, payload⟩ ∧
      ∀ version ∈ after.versions, version.state ≠ .destroyed → version.number = number := by
  obtain ⟨new, added, hadd, hrest⟩ := Effect.exists_of_bind_ok hok
  obtain ⟨listed, same, hlist, hrest⟩ := Effect.exists_of_bind_ok hrest
  obtain ⟨⟨⟩, final, hloop, hreturn⟩ := Effect.exists_of_bind_ok hrest
  obtain ⟨hadds, hstep⟩ := check_eq_ok hadd
  obtain ⟨rfl, rfl⟩ := Prod.mk.inj hstep
  obtain ⟨-, hstep⟩ := check_eq_ok hlist
  obtain ⟨rfl, rfl⟩ := Prod.mk.inj hstep
  obtain ⟨hnumber, rfl⟩ := Prod.mk.inj hreturn
  obtain rfl : store.next = number := Except.ok.inj hnumber
  refine ⟨?_, fun version hmem hstate => ?_⟩
  · have hpushed := (push_spec store payload hadds).1
    rwa [hok] at hpushed
  · obtain ⟨hthere, hspared⟩ := destroyOlder_spared _ (congrArg Prod.fst hloop) version
      (by rwa [hloop]) hstate
    exact (hspared _ (List.mem_map_of_mem hthere) rfl).resolve_right hstate

/-- What a push that returns leaves: one version, with the keys it names, among them the generated
ones and those of the file. -/
structure Complete (store : Store) (file : Option EnvFile) (version : ℕ) (names : List String) :
    Prop where
  readable : ∃ payload, Ends store ⟨version, .enabled, payload⟩
  single : ∀ other ∈ store.versions, other.state ≠ .destroyed → other.number = version
  named : ∀ key, key ∈ names ↔ ∃ value, contents store key = some value
  drawn : ∀ key ∈ generated, key ∈ names
  taken : ∀ key value, (fromFile file).get? key = some value → contents store key = some value

theorem pushCommand_complete {file : Option EnvFile} {noEnvFile : Bool} {token : String → String}
    {version : ℕ} {names : List String} {after : Store} (hsound : Sound store)
    (hfaults : Truthful faults.access) (htoken : ∀ key, token key ≠ "")
    (hok : pushCommand file noEnvFile token faults store =
      (.ok (.stored version names), after)) : Complete after file version names := by
  unfold pushCommand at hok
  split_ifs at hok with hmissing
  · cases hok
  · obtain ⟨stored, same, hread, hrest⟩ := Effect.exists_of_bind_ok hok
    obtain rfl : stored = storedObject store :=
      current_of_truthful hfaults stored (congrArg Prod.fst hread)
    obtain rfl : same = store := by rw [← current_store faults.access store, hread]
    obtain ⟨number, final, hpush, hreturn⟩ := Effect.exists_of_bind_ok hrest
    obtain ⟨hresult, rfl⟩ := Prod.mk.inj hreturn
    obtain ⟨rfl, rfl⟩ := Pushed.stored.inj (Except.ok.inj hresult)
    obtain ⟨hends, hsingle⟩ := push_single hpush
    have htidy : Tidy (merged file token (storedObject same)) :=
      tidy_merged hsound.tidy htoken
    have hcontents : ∀ key, contents final key =
        (merged file token (storedObject same)).get? key := fun key => by
      rw [contents, storedObject_of_ends hends]
      exact get?_buildPayload_of_tidy htidy key
    have hnamed : ∀ key, key ∈ (keys.filter fun key =>
        ((merged file token (storedObject same)).get? key).any (· ≠ "")) ↔
          ∃ value, contents final key = some value := by
      intro key
      rw [hcontents, List.mem_filter, Option.any_eq_true]
      constructor
      · rintro ⟨-, value, hvalue, -⟩
        exact ⟨value, hvalue⟩
      · rintro ⟨value, hvalue⟩
        obtain ⟨hkey, hne⟩ := htidy key value hvalue
        exact ⟨hkey, value, hvalue, decide_eq_true hne⟩
    refine ⟨⟨_, hends⟩, hsingle, hnamed, fun key hkey => (hnamed key).2 ?_, fun key value h => ?_⟩
    · rw [hcontents, get?_merged, if_pos hkey]
      cases (fromFile file).get? key with
      | some value => exact ⟨value, rfl⟩
      | none =>
          cases (storedObject same).get? key with
          | some value => exact ⟨value, rfl⟩
          | none => exact ⟨token key, rfl⟩
    · rw [hcontents, get?_merged, h, Option.some_or]

end Single

/-! ## Runs -/

section Runs

variable {wrangler : String → String} {ref : String} {s : Production} {command : Command}
  {commands : List Command} {key value : String}

/-- The Worker gets the stored secret or nothing happens. -/
theorem edgeCommand_cases {access put : Option String} (htruthful : Truthful access) :
    ((edgeCommand wrangler access put s).1 ≠ .ok .edgeSet ∧
      (edgeCommand wrangler access put s).2 = s) ∨
      ∃ edge, edge ≠ "" ∧ contents s.store "EDGE_SHARED_SECRET" = some edge ∧
        (edgeCommand wrangler access put s).2 = { s with worker := some (wrangler edge) } := by
  cases hread : (current access s.store).1 with
  | error e =>
      rw [edgeCommand, hread]
      exact .inl ⟨by simp, rfl⟩
  | ok stored =>
      simp only [edgeCommand, hread]
      cases hedge : (stored.get? "EDGE_SHARED_SECRET").filter (· ≠ "") with
      | none => exact .inl ⟨by simp, rfl⟩
      | some edge =>
          cases put with
          | some text => exact .inl ⟨by simp, rfl⟩
          | none =>
              obtain ⟨hstored, hne⟩ := Option.filter_eq_some_iff.1 hedge
              refine .inr ⟨edge, of_decide_eq_true hne, ?_, rfl⟩
              rw [contents, ← current_of_truthful htruthful stored hread]
              exact hstored

/-- Only the Worker can change. -/
theorem edgeCommand_frame (wrangler : String → String) (access put : Option String)
    (s : Production) :
    (edgeCommand wrangler access put s).2.store = s.store ∧
      (edgeCommand wrangler access put s).2.pg = s.pg := by
  unfold edgeCommand
  split
  · exact ⟨rfl, rfl⟩
  · split
    · exact ⟨rfl, rfl⟩
    · split <;> exact ⟨rfl, rfl⟩

/-- **One command** writes every key or nothing. -/
theorem step_contents (hsound : Sound s.store) (h : command.Honest) :
    Written command s.store ((production wrangler).step s command).2.store := by
  cases command with
  | push file noEnvFile token faults => exact written_push hsound noEnvFile h.1 h.2
  | edge access put => exact .inl (edgeCommand_frame wrangler access put s).1
  | provision env rotate faults => exact written_provision hsound env rotate h s.pg

/-- What is stored is tidy after any command, honest or not. -/
theorem step_tidy (htidy : Tidy (storedObject s.store)) (command : Command) :
    Tidy (storedObject ((production wrangler).step s command).2.store) := by
  cases command with
  | push file noEnvFile token faults =>
      change Tidy (storedObject (pushCommand file noEnvFile token faults s.store).2)
      unfold pushCommand
      split_ifs
      · exact htidy
      · rcases read_any faults.access _ s.store with hsame | ⟨stored, -, hnext⟩
        · rwa [hsame]
        · rw [hnext, push_then]
          exact tidy_push faults (merged file token stored) htidy
  | edge access put =>
      change Tidy (storedObject (edgeCommand wrangler access put s).2.store)
      rwa [(edgeCommand_frame wrangler access put s).1]
  | provision env rotate faults =>
      change Tidy (storedObject (provision faults env rotate s.pg s.store).2.2)
      rcases (provision_frame faults env rotate s.pg s.store).1 with hsame | hmerge
      · rwa [hsame]
      · rw [hmerge]
        rcases read_any faults.merge.access
          (fun stored => push faults.merge (buildPayload (stored.update (databaseUrl env))))
          s.store with hsame | ⟨stored, -, hnext⟩
        · rwa [show (Secrets.merge faults.merge (databaseUrl env) s.store).2 = s.store from hsame]
        · rw [show (Secrets.merge faults.merge (databaseUrl env) s.store).2 = _ from hnext]
          exact tidy_push faults.merge (stored.update (databaseUrl env)) htidy

theorem run_tidy (htidy : Tidy (storedObject s.store)) (commands : List Command) :
    Tidy (storedObject ((production wrangler).run s commands).store) := by
  induction commands generalizing s with
  | nil => exact htidy
  | cons command rest ih => exact ih (step_tidy htidy command)

theorem step_sound (hsound : Sound s.store) (h : command.Honest) :
    Sound ((production wrangler).step s command).2.store := by
  rcases step_contents hsound h with hsame | ⟨hafter, -⟩
  · rwa [hsame]
  · exact hafter

theorem run_sound (hsound : Sound s.store) (h : ∀ command ∈ commands, command.Honest) :
    Sound ((production wrangler).run s commands).store := by
  induction commands generalizing s with
  | nil => exact hsound
  | cons command rest ih =>
      obtain ⟨hfirst, hrest⟩ := List.forall_mem_cons.1 h
      exact ih (step_sound hsound hfirst) hrest

/-- A key that is there is kept, and its value too unless the command sets it. -/
theorem step_kept (hsound : Sound s.store) (h : command.Honest)
    (hvalue : contents s.store key = some value) :
    (∃ value, contents ((production wrangler).step s command).2.store key = some value) ∧
      (¬ command.Sets key →
        contents ((production wrangler).step s command).2.store key = some value) := by
  rcases step_contents hsound h with hsame | ⟨-, hwritten⟩
  · rw [hsame]
    exact ⟨⟨value, hvalue⟩, fun _ => hvalue⟩
  · rw [hwritten, hvalue]
    cases command with
    | push file noEnvFile token faults =>
        simp only [Command.writes, Command.Sets, Option.some_or]
        cases hfile : (fromFile file).get? key with
        | none => exact ⟨⟨value, rfl⟩, fun _ => rfl⟩
        | some found =>
            exact ⟨⟨found, rfl⟩, fun hnot => absurd (Dict.mem_of_get?_eq_some hfile) hnot⟩
    | edge access put => exact ⟨⟨value, rfl⟩, fun _ => rfl⟩
    | provision env rotate faults =>
        simp only [Command.writes, Command.Sets]
        split_ifs with hkey
        · exact ⟨⟨_, rfl⟩, fun hnot => absurd hkey hnot⟩
        · exact ⟨⟨value, rfl⟩, fun _ => rfl⟩

theorem run_kept (hsound : Sound s.store) (h : ∀ command ∈ commands, command.Honest)
    (hvalue : contents s.store key = some value) :
    (∃ value, contents ((production wrangler).run s commands).store key = some value) ∧
      ((∀ command ∈ commands, ¬ command.Sets key) →
        contents ((production wrangler).run s commands).store key = some value) := by
  induction commands generalizing s value with
  | nil => exact ⟨⟨value, hvalue⟩, fun _ => hvalue⟩
  | cons command rest ih =>
      obtain ⟨hfirst, hrest⟩ := List.forall_mem_cons.1 h
      have hsound' : Sound ((production wrangler).step s command).2.store :=
        step_sound hsound hfirst
      obtain ⟨⟨value', hvalue'⟩, hsame⟩ := step_kept hsound hfirst hvalue
      refine ⟨(ih hsound' hrest hvalue').1, fun hnot => ?_⟩
      obtain ⟨hnot, hnots⟩ := List.forall_mem_cons.1 hnot
      exact (ih hsound' hrest (hsame hnot)).2 hnots

/-- A push leaves the address alone, whatever the file and the tokens. -/
theorem push_keeps_address (file : Option EnvFile) (noEnvFile : Bool) (token : String → String)
    (faults : Faults) (old : Option String) :
    (Command.push file noEnvFile token faults).writes "DATABASE_URL" old = old := by
  have hnone : (fromFile file).get? "DATABASE_URL" = none := by
    cases hfile : (fromFile file).get? "DATABASE_URL" with
    | none => rfl
    | some found => exact absurd (by decide) (of_fromFile hfile).2.1
  have hdrawn : "DATABASE_URL" ∉ generated := by decide
  simp only [Command.writes, hnone, Option.none_or, if_neg hdrawn, Option.or_none]

/-- The address is one that provisioning wrote. -/
theorem run_address {url : String} (hsound : Sound s.store)
    (h : ∀ command ∈ commands, command.Honest)
    (hurl : contents ((production wrangler).run s commands).store "DATABASE_URL" = some url) :
    contents s.store "DATABASE_URL" = some url ∨
      ∃ env rotate faults, .provision env rotate faults ∈ commands ∧
        url = poolerUrl env.ref env.host env.token := by
  induction commands generalizing s with
  | nil => exact .inl hurl
  | cons command rest ih =>
      obtain ⟨hfirst, hrest⟩ := List.forall_mem_cons.1 h
      rcases ih (step_sound hsound hfirst) hrest hurl with hnow | ⟨env, rotate, faults, hmem, heq⟩
      · rcases step_contents hsound hfirst with hsame | ⟨-, hwritten⟩
        · exact .inl (hsame ▸ hnow)
        · rw [hwritten] at hnow
          cases command with
          | push file noEnvFile token faults =>
              rw [push_keeps_address] at hnow
              exact .inl hnow
          | edge access put => exact .inl hnow
          | provision env rotate faults =>
              exact .inr ⟨env, rotate, faults, List.mem_cons_self, (Option.some.inj hnow).symm⟩
      · exact .inr ⟨env, rotate, faults, List.mem_cons_of_mem _ hmem, heq⟩

/-- What the newest version says of the database is what is stored of it. -/
theorem storedUrl_of_sound {store : Store} (h : Sound store) :
    storedUrl store = contents store "DATABASE_URL" := by
  rcases h with hempty | ⟨latest, hends, hstate, -⟩
  · rw [storedUrl, Store.newest, contents, storedObject, hempty]
    rfl
  · have hlive : latest.state ≠ .destroyed := by
      rw [hstate]
      exact VersionState.noConfusion
    rw [storedUrl, hends.newest hlive, contents, storedObject_of_ends hends]
    rfl

/-- A provisioning run is of the project and is not torn. -/
def Whole (ref : String) (s : Production) : Command → Prop
  | .push .. => True
  | .edge .. => True
  | .provision env rotate faults => env.ref = ref ∧ ¬ Torn faults rotate s.pg s.store

theorem step_agrees (hsound : Sound s.store) (h : command.Honest) (hwhole : Whole ref s command)
    (hagrees : Agrees ref s.pg s.store) :
    Agrees ref ((production wrangler).step s command).2.pg
      ((production wrangler).step s command).2.store := by
  cases command with
  | push file noEnvFile token faults =>
      have hurl : storedUrl
          ((production wrangler).step s (.push file noEnvFile token faults)).2.store =
            storedUrl s.store := by
        rw [storedUrl_of_sound hsound, storedUrl_of_sound (step_sound hsound h)]
        rcases step_contents hsound h with hsame | ⟨-, hwritten⟩
        · rw [hsame]
        · rw [hwritten, push_keeps_address]
      unfold LoginRole.Agrees LoginRole.Holds at hagrees ⊢
      rwa [hurl]
  | edge access put =>
      obtain ⟨hstore, hpg⟩ := edgeCommand_frame wrangler access put s
      change Agrees ref (edgeCommand wrangler access put s).2.pg
        (edgeCommand wrangler access put s).2.store
      rwa [hpg, hstore]
  | provision env rotate faults =>
      obtain ⟨rfl, htorn⟩ := hwhole
      by_cases hreach : ReachesWrite faults rotate s.pg s.store
      · obtain ⟨hurl, hdone, -⟩ := provision_of_reaches env hreach
        have hall : Cleans faults.merge s.store ∧ faults.commit = none :=
          not_not.1 fun hnot => htorn ⟨hreach, hnot⟩
        have hsets : SetsBothOrNeither env s.pg s.store
            (provision faults env rotate s.pg s.store) := setsBoth (hdone hall) hurl
        exact hsets.1
      · have hsame := provision_of_not_reaches env hreach
        change Agrees env.ref (provision faults env rotate s.pg s.store).2.1
          (provision faults env rotate s.pg s.store).2.2
        rwa [hsame]

/-- The edge secret is stored, and the Worker has what `wrangler` stores of it. -/
def KeepsUp (wrangler : String → String) (edge : String) (s : Production) : Prop :=
  s.worker = some (wrangler edge) ∧ contents s.store "EDGE_SHARED_SECRET" = some edge

theorem step_keepsUp {edge : String} (hsound : Sound s.store) (h : command.Honest)
    (hnot : ¬ command.Sets "EDGE_SHARED_SECRET") (hkeeps : KeepsUp wrangler edge s) :
    KeepsUp wrangler edge ((production wrangler).step s command).2 := by
  refine ⟨?_, (step_kept hsound h hkeeps.2).2 hnot⟩
  cases command with
  | push | provision => exact hkeeps.1
  | edge access put =>
      change (edgeCommand wrangler access put s).2.worker = some (wrangler edge)
      rcases edgeCommand_cases h with ⟨-, hsame⟩ | ⟨stored, -, hstored, hset⟩
      · rw [hsame, hkeeps.1]
      · obtain rfl := Option.some.inj (hstored.symm.trans hkeeps.2)
        rw [hset]

theorem run_keepsUp {edge : String} (hsound : Sound s.store)
    (h : ∀ command ∈ commands, command.Honest)
    (hnot : ∀ command ∈ commands, ¬ command.Sets "EDGE_SHARED_SECRET")
    (hkeeps : KeepsUp wrangler edge s) :
    KeepsUp wrangler edge ((production wrangler).run s commands) := by
  induction commands generalizing s with
  | nil => exact hkeeps
  | cons command rest ih =>
      obtain ⟨hfirst, hrest⟩ := List.forall_mem_cons.1 h
      obtain ⟨hnot, hnots⟩ := List.forall_mem_cons.1 hnot
      exact ih (step_sound hsound hfirst) hrest hnots (step_keepsUp hsound hfirst hnot hkeeps)

/-- A secret that was handed over is there, at the Worker and stored. -/
theorem keepsUp_of_edgeSet {access put : Option String} (htruthful : Truthful access)
    (hset : (edgeCommand wrangler access put s).1 = .ok .edgeSet) :
    ∃ edge, edge ≠ "" ∧ KeepsUp wrangler edge (edgeCommand wrangler access put s).2 := by
  rcases edgeCommand_cases htruthful with ⟨hnot, -⟩ | ⟨edge, hne, hstored, hafter⟩
  · exact absurd hset hnot
  · rw [hafter]
    exact ⟨edge, hne, rfl, hstored⟩

end Runs

/-- What holds of production after any commands, whichever steps failed. -/
structure Keeps (wrangler : String → String) (ref : String) (start : Production)
    (commands : List Command) : Prop where
  /-- The role has the password that is stored, if no provisioning run is torn. -/
  agrees : Agrees ref start.pg start.store →
    (production wrangler).Along (Whole ref) start commands →
      Agrees ref ((production wrangler).run start commands).pg
        ((production wrangler).run start commands).store
  /-- A key is never lost. -/
  kept : ∀ past later, commands = past ++ later → ∀ key value,
    contents ((production wrangler).run start past).store key = some value →
      ∃ value, contents ((production wrangler).run start commands).store key = some value
  /-- A value changes only when a command has one of its own: no token is drawn twice. -/
  settled : ∀ past later, commands = past ++ later → ∀ key value,
    contents ((production wrangler).run start past).store key = some value →
      (∀ command ∈ later, ¬ command.Sets key) →
        contents ((production wrangler).run start commands).store key = some value
  /-- The database's address is one that provisioning wrote. -/
  address : ∀ url,
    contents ((production wrangler).run start commands).store "DATABASE_URL" = some url →
      contents start.store "DATABASE_URL" = some url ∨
        ∃ env rotate faults, .provision env rotate faults ∈ commands ∧
          url = poolerUrl env.ref env.host env.token
  /-- A push that returns leaves one version, complete. -/
  pushed : ∀ past file noEnvFile token faults version names,
    commands = past ++ [.push file noEnvFile token faults] →
      (production wrangler).answerAfter start past (.push file noEnvFile token faults) =
          .ok (.pushed (.stored version names)) →
        Complete ((production wrangler).run start commands).store file version names
  /-- Provisioning that raises leaves Postgres unchanged. -/
  unchanged : ∀ past env rotate faults e, commands = past ++ [.provision env rotate faults] →
    (production wrangler).answerAfter start past (.provision env rotate faults) = .error e →
      ((production wrangler).run start commands).pg = ((production wrangler).run start past).pg

theorem run_agrees {wrangler : String → String} (ref : String) {start : Production}
    {commands : List Command} (hstart : Sound start.store) (hhonest : ∀ command ∈ commands, command.Honest)
    (hagrees : Agrees ref start.pg start.store)
    (hwhole : (production wrangler).Along (Whole ref) start commands) :
    Agrees ref ((production wrangler).run start commands).pg
      ((production wrangler).run start commands).store := by
  induction commands generalizing start with
  | nil => exact hagrees
  | cons command rest ih =>
      obtain ⟨hfirst, hrest⟩ := List.forall_mem_cons.1 hhonest
      obtain ⟨hnow, hlater⟩ := Machine.along_cons.1 hwhole
      exact ih (step_sound hstart hfirst) hrest (step_agrees hstart hfirst hnow hagrees) hlater

/-- **Deploying in any order.** Whatever commands are run from a sound secret, and whichever of
their steps fail, as long as no failure says that there is no secret and no token is empty: the
password agrees, no key is lost, no token is drawn twice, the address comes from provisioning, and
a push that returns leaves one complete version. -/
theorem commands_keep (wrangler : String → String) (ref : String) (start : Production)
    (commands : List Command) (hstart : Sound start.store)
    (hhonest : ∀ command ∈ commands, command.Honest) : Keeps wrangler ref start commands where
  agrees := run_agrees ref hstart hhonest
  kept past later heq key value hvalue := by
    subst heq
    obtain ⟨hpast, hlater⟩ := List.forall_mem_append.1 hhonest
    rw [Machine.run_append]
    exact (run_kept (run_sound hstart hpast) hlater hvalue).1
  settled past later heq key value hvalue := by
    subst heq
    obtain ⟨hpast, hlater⟩ := List.forall_mem_append.1 hhonest
    rw [Machine.run_append]
    exact (run_kept (run_sound hstart hpast) hlater hvalue).2
  address url := run_address hstart hhonest
  pushed past file noEnvFile token faults version names heq hanswer := by
    subst heq
    obtain ⟨hpast, hlast⟩ := List.forall_mem_append.1 hhonest
    obtain ⟨hfaults, htoken⟩ := hlast _ (List.mem_singleton.2 rfl)
    rw [Machine.run_concat]
    refine pushCommand_complete (run_sound hstart hpast) hfaults htoken (Prod.ext ?_ rfl)
    exact ok_of_reported (fun _ _ => Done.pushed.inj) hanswer
  unchanged past env rotate faults e heq hanswer := by
    subst heq
    rw [Machine.run_concat]
    obtain ⟨cause, hcause⟩ := error_of_reported hanswer
    exact (provision_frame faults env rotate _ _).2 cause hcause

/-- **The Worker keeps up.** After the edge secret was handed to the Worker, the Worker has what
`wrangler` makes of the stored one, whatever honest commands are run next and whichever of their
steps fail, as long as no env file that is pushed has another. -/
theorem worker_keeps_up (wrangler : String → String) (start : Production)
    (past later : List Command) (access put : Option String) (hstart : Sound start.store)
    (hhonest : ∀ command ∈ past ++ .edge access put :: later, command.Honest)
    (hset : (production wrangler).answerAfter start past (.edge access put) = .ok .edgeSet)
    (hlater : ∀ command ∈ later, ¬ command.Sets "EDGE_SHARED_SECRET") :
    ∃ edge, edge ≠ "" ∧ KeepsUp wrangler edge
      ((production wrangler).run start (past ++ .edge access put :: later)) := by
  obtain ⟨hpast, hrest⟩ := List.forall_mem_append.1 hhonest
  obtain ⟨hnow, hnext⟩ := List.forall_mem_cons.1 hrest
  have hsound : Sound ((production wrangler).run start past).store := run_sound hstart hpast
  obtain ⟨edge, hne, hkeeps⟩ := keepsUp_of_edgeSet hnow hset
  rw [Machine.run_append, Machine.run_cons]
  exact ⟨edge, hne, run_keepsUp (step_sound hsound hnow) hnext hlater hkeeps⟩

theorem numbered_nil :
    ([] : List Version).Pairwise fun older newer => older.number < newer.number := .nil

/-- `wrangler` drops the white space behind a text. -/
def trimEnd (text : String) : String :=
  String.ofList (text.toList.reverse.dropWhile Char.isWhitespace).reverse

/-- A project before its first command. -/
def fresh : Production := ⟨none, ⟨[], numbered_nil⟩, none⟩

/-- A push without an env file, in which every step succeeds. -/
def firstPush : Command :=
  .push none true (fun key => "a token for " ++ key) ⟨none, none, none, fun _ => none⟩

/-- Provisioning in which every step succeeds. -/
def firstRole : Command :=
  .provision ⟨"ref", "host", "password", "salt"⟩ false (LoginRole.listFaults none)

/-- A push that cannot read what is stored. -/
def deniedPush : Command :=
  .push none true (fun key => "another token for " ++ key)
    ⟨some "PERMISSION_DENIED", none, none, fun _ => none⟩

/-- Provisioning whose version is added, after which the listing fails. -/
def unlistedRole : Command :=
  .provision ⟨"ref", "host", "rotated", "salt"⟩ true (LoginRole.listFaults (some "UNAVAILABLE"))

/-- A launch in which steps of `gcloud` and `wrangler` fail. -/
def launch : List Command :=
  [firstPush, .edge none (some "not logged in"), deniedPush, .edge none none, firstRole,
    unlistedRole]

theorem honest_launch : ∀ command ∈ launch, command.Honest := by
  have htoken : ∀ (words key : String), words ≠ "" → words ++ key ≠ "" := fun words key hwords h =>
    hwords (String.append_eq_empty_iff.1 h).1
  have hdenied : Truthful (some "PERMISSION_DENIED") := by
    rintro text ⟨⟩
    decide
  simp only [launch, List.forall_mem_cons]
  exact ⟨⟨nofun, fun key => htoken _ key (by decide)⟩, nofun,
    ⟨hdenied, fun key => htoken _ key (by decide)⟩, nofun, nofun, nofun, List.forall_mem_nil _⟩

theorem commands_keep_launch : Keeps trimEnd "ref" fresh launch :=
  commands_keep trimEnd "ref" fresh launch (.inl rfl) honest_launch

theorem worker_keeps_up_launch : ∃ edge, edge ≠ "" ∧
    KeepsUp trimEnd edge ((production trimEnd).run fresh launch) := by
  refine worker_keeps_up trimEnd fresh [firstPush, .edge none (some "not logged in"), deniedPush]
    [firstRole, unlistedRole] none none (.inl rfl) honest_launch rfl ?_
  simp only [List.forall_mem_cons]
  exact ⟨show "EDGE_SHARED_SECRET" ≠ "DATABASE_URL" by decide,
    show "EDGE_SHARED_SECRET" ≠ "DATABASE_URL" by decide, List.forall_mem_nil _⟩

end DealFinder.Deploy.Commands
