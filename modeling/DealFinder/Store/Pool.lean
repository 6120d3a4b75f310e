/-
# The pool

Requests take a pooled connection, open one transaction and run one operation in it,
under settings that end with the transaction. A run is a list of requests in the order
in which their transactions commit or roll back.
-/

import DealFinder.Store.Pgstore
import DealFinder.Store.Retention
import DealFinder.Store.Userstore

namespace DealFinder.Store

open DealFinder.Math

/-- The operations of the store modules. -/
inductive Op
  | addWatch (userId tenantId offerId : String) (targetPrice : Option ℚ)
  | listWatch (userId : String)
  | removeWatch (userId offerId : String)
  | addSavedSearch (userId query : String) (maxPrice : Option ℚ)
  | listSavedSearches (userId : String)
  | removeSavedSearch (userId searchId : String)
  | upsert (products : List Row) (embeddings : Option (List (Option (List ℚ)))) (tenant : String)
  | semanticSearch (queryEmbedding : List ℚ) (k : ℤ) (tenant : String)
  | count (tenant : String)
  | purgeExpired

/-- What an operation returns. -/
inductive Answer
  | watched (row : Watched)
  | watchlist (rows : List Watched)
  | removed (count : ℕ)
  | saved (row : Saved)
  | searches (rows : List Saved)
  | written (count : ℕ)
  | found (rows : List Found)
  | counted (count : ℕ)
  | purged (offers watchlist : ℕ)
  deriving DecidableEq

/-- An operation, the connection it is given, the time of its transaction, and the id
that Postgres generates should it need one. -/
structure Request where
  conn : ℕ
  time : ℚ
  generated : Uuid
  op : Op

/-- The database, and the settings of each connection outside transactions. -/
structure Pool where
  db : Database
  session : ℕ → Settings

/-- `scoped`: the settings of a transaction of a request. -/
def dbScoped (userId : Option String) (tenantId : String) (session : Settings) : Settings :=
  { session with role := .app, tenantId := some tenantId, userId := some (userId.getD "") }

/-- `job_scope`: the settings of a transaction of a job. -/
def jobScope (session : Settings) : Settings := { session with role := .job }

theorem scopes_user (userId tenantId : String) (session : Settings) :
    (dbScoped (some userId) tenantId session).Scopes tenantId userId := ⟨rfl, rfl, rfl⟩

theorem scopes_catalog (tenantId : String) (session : Settings) :
    (dbScoped none tenantId session).Scopes tenantId "" := ⟨rfl, rfl, rfl⟩

/-- The default of `tenant_id`. -/
def defaultTenant : String := "public"

/-- The settings under which an operation runs. -/
def Op.settings : Op → Settings → Settings
  | .addWatch userId tenantId .. => dbScoped (some userId) tenantId
  | .listWatch userId | .removeWatch userId _ => dbScoped (some userId) defaultTenant
  | .addSavedSearch userId .. | .listSavedSearches userId | .removeSavedSearch userId _ =>
      dbScoped (some userId) defaultTenant
  | .upsert _ _ tenant | .semanticSearch _ _ tenant | .count tenant => dbScoped none tenant
  | .purgeExpired => jobScope

section Machine

variable (postgres : Postgres)

/-- The body of an operation's transaction. -/
def Op.body (settings : Settings) (now : ℚ) (generated : Uuid) : Op → Txn Answer
  | .addWatch userId tenantId offerId targetPrice =>
      return .watched (← Store.addWatch settings now userId tenantId offerId targetPrice)
  | .listWatch _ => return .watchlist (← Store.listWatch settings)
  | .removeWatch _ offerId => return .removed (← Store.removeWatch settings offerId)
  | .addSavedSearch userId query maxPrice =>
      return .saved (← Store.addSavedSearch settings now userId query maxPrice generated)
  | .listSavedSearches _ => return .searches (← Store.listSavedSearches settings)
  | .removeSavedSearch _ searchId =>
      return .removed (← Store.removeSavedSearch settings postgres searchId)
  | .upsert products embeddings tenant =>
      return .written (← Store.upsert postgres settings tenant now products embeddings)
  | .semanticSearch queryEmbedding k _ =>
      return .found (← Store.semanticSearch postgres settings queryEmbedding k)
  | .count _ => return .counted (← Store.count settings)
  | .purgeExpired => do
      let (offers, watchlist) ← Store.purgeExpired now retentionMarginS settings
      return .purged offers watchlist

/-- The transaction of a request. -/
def Pool.transaction (pool : Pool) (request : Request) : Except Error Answer × Database :=
  request.op.body postgres (request.op.settings (pool.session request.conn)) request.time
    request.generated pool.db

/-- Commit after a normal end, else roll back. The connection keeps its settings. -/
def Pool.step (pool : Pool) (request : Request) : Except Error Answer × Pool :=
  match pool.transaction postgres request with
  | (.ok answer, db) => (.ok answer, { pool with db })
  | (.error e, _) => (.error e, pool)

/-- The pool, driven by requests. -/
def machine : Machine Pool Request (Except Error Answer) := ⟨Pool.step postgres⟩

/-! ## Rules -/

variable {postgres} {pool pool' : Pool} {request : Request}

theorem session_step : (pool.step postgres request).2.session = pool.session := by
  rw [Pool.step]
  cases pool.transaction postgres request with
  | mk result db => cases result <;> rfl

/-- A request keeps what its body keeps: a rollback keeps everything. -/
theorem step_of_maintains {P : Database → Prop}
    (h : Effect.Maintains P (request.op.body postgres
      (request.op.settings (pool.session request.conn)) request.time request.generated))
    (hpool : P pool.db) : P (pool.step postgres request).2.db := by
  have hbody := h pool.db hpool
  rw [Pool.step]
  cases hrun : pool.transaction postgres request with
  | mk result db =>
      cases result with
      | error e => exact hpool
      | ok answer =>
          rw [Pool.transaction] at hrun
          rw [hrun] at hbody
          exact hbody

/-- A purge commits. -/
theorem step_purge (hop : request.op = .purgeExpired) :
    (pool.step postgres request).2.db =
      (purgeExpired request.time retentionMarginS
        (jobScope (pool.session request.conn)) pool.db).2 := by
  rw [Pool.step, Pool.transaction, hop]
  rfl

/-- A request respects what its body respects. -/
theorem step_of_respects {R : Database → Database → Prop} (hsession : pool.session = pool'.session)
    (h : Effect.Respects R (request.op.body postgres
      (request.op.settings (pool.session request.conn)) request.time request.generated))
    (hpool : R pool.db pool'.db) :
    (pool.step postgres request).1 = (pool'.step postgres request).1 ∧
      R (pool.step postgres request).2.db (pool'.step postgres request).2.db := by
  obtain ⟨hanswer, hdb⟩ := h pool.db pool'.db hpool
  rw [Pool.step, Pool.step]
  cases hrun : pool.transaction postgres request with
  | mk result db =>
      cases hrun' : pool'.transaction postgres request with
      | mk result' db' =>
          rw [Pool.transaction] at hrun hrun'
          rw [← hsession] at hrun'
          rw [hrun, hrun'] at hanswer hdb
          simp only at hanswer
          subst hanswer
          cases result with
          | error e => exact ⟨rfl, hpool⟩
          | ok answer => exact ⟨rfl, hdb⟩

end Machine

/-- A Postgres without rounding, distances or uuids. -/
def plainPostgres : Postgres := ⟨id, fun _ _ => 0, fun _ => none⟩

/-- Nothing stored, and nothing set. -/
def emptyPool : Pool := ⟨.empty, fun _ => ⟨.login, none, none⟩⟩

end DealFinder.Store
