/-
# What a request changes

Each operation is a sequence of writes, and there are few of them: an offer, a watch,
a watch less, the saved searches, and a purge. What every write keeps, a request keeps
(`step_of_changes`), so an invariant of the tables is a case analysis on `Change`.
-/

import DealFinder.Store.Pool

namespace DealFinder.Store

open DealFinder.Math DealFinder.Shop

/-- The tables after a purge. -/
def purged (now marginS : ℚ) (db : Database) : Database :=
  { db with
    offers := db.offers.filter fun _ offer =>
      !expired now marginS (some offer.source) offer.fetchedAt
    watchlist := db.watchlist.filter fun _ watch =>
      !expired now marginS watch.source watch.lastCheckedAt }

/-- The tables after the `INSERT` of an offer. -/
def withOffer (db : Database) (key : OfferKey) (offer : Offer) : Database :=
  { db with offers := db.offers.set key (refreshed offer (db.offers.get? key)) }

/-- The tables after the `INSERT` of a watch. -/
def withWatch (db : Database) (key : WatchKey) (watch : Watch) : Database :=
  { db with watchlist := db.watchlist.set key (rewatched watch (db.watchlist.get? key)) }

/-- The writes of a request. -/
inductive Change (postgres : Postgres) (request : Request) (db : Database) : Database → Prop
  | offer {products embeddings tenant p emb embedding}
      (hop : request.op = .upsert products embeddings tenant)
      (hpair : (p, emb) ∈ upsertPairs products embeddings) (hstore : mayStore p.source = true)
      (hembedding : storedEmbedding postgres p emb = .ok embedding) :
      Change postgres request db
        (withOffer db ⟨tenant, p.id⟩ (offerOf request.time p embedding))
  | watch {userId tenantId offerId targetPrice offer}
      (hop : request.op = .addWatch userId tenantId offerId targetPrice)
      (hoffer : db.offers.get? ⟨tenantId, offerId⟩ = some offer)
      (hstore : mayStore offer.source = true) :
      Change postgres request db
        (withWatch db ⟨userId, offerId⟩ (watchOf tenantId targetPrice offer request.time))
  | unwatch {userId offerId} (hop : request.op = .removeWatch userId offerId) :
      Change postgres request db
        { db with watchlist := db.watchlist.eraseAll [⟨userId, offerId⟩] }
  | searches (savedSearches : List SavedSearch) :
      Change postgres request db { db with savedSearches }
  | purge (hop : request.op = .purgeExpired) :
      Change postgres request db (purged request.time retentionMarginS db)

section Rule

variable {postgres : Postgres} {request : Request} {P : Database → Prop}

/-- An operation keeps what its writes keep. -/
theorem maintains_body (h : ∀ db db', Change postgres request db db' → P db → P db')
    (session : Settings) :
    Effect.Maintains P (request.op.body postgres (request.op.settings session) request.time
      request.generated) := by
  cases hop : request.op with
  | addWatch userId tenantId offerId targetPrice =>
      refine Effect.Maintains.returning (fun db hdb => ?_) _
      rcases addWatch_cases (scopes_user userId tenantId session) request.time offerId targetPrice
        db with ⟨e, hrun⟩ | ⟨offer, left, hoffer, hstore, -, rfl, hrun⟩
      · exact hrun.symm ▸ hdb
      · exact hrun.symm ▸ h _ _ (.watch hop hoffer hstore) hdb
  | listWatch userId => exact (Effect.maintains_read _).returning _
  | removeWatch userId offerId =>
      refine (Effect.maintains_write fun db hdb => ?_).returning _
      have hset := (scopes_user userId defaultTenant session).deleteWatch_eq offerId db
      exact hset.symm ▸ h _ _ (.unwatch hop) hdb
  | addSavedSearch userId query maxPrice =>
      refine (maintains_addSavedSearch (Effect.maintains_attempt
        fun db _ after hdb hrun => ?_)).returning _
      rw [(scopes_user userId defaultTenant session).insertSearch_ok rfl hrun]
      exact h _ _ (.searches _) hdb
  | listSavedSearches userId => exact (Effect.maintains_read _).returning _
  | removeSavedSearch userId searchId =>
      exact (maintains_removeSavedSearch fun id => Effect.maintains_write fun db hdb =>
        h _ _ (.searches _) hdb).returning _
  | upsert products embeddings tenant =>
      refine (maintains_upsert fun pair hpair hstore => Effect.maintains_attempt
        fun db _ after hdb hrun => ?_).returning _
      obtain ⟨embedding, hembedding, rfl⟩ :=
        upsertOffer_ok postgres request.time (scopes_catalog tenant session) hrun
      exact h _ _ (.offer hop hpair hstore hembedding) hdb
  | semanticSearch queryEmbedding k tenant => exact (Effect.maintains_query _).returning _
  | count tenant => exact (Effect.maintains_read _).returning _
  | purgeExpired =>
      refine Effect.Maintains.returning (fun db hdb => ?_) _
      rw [purgeExpired_eq request.time retentionMarginS rfl]
      exact h _ _ (.purge hop) hdb

/-- A request keeps what its writes keep. -/
theorem step_of_changes (h : ∀ db db', Change postgres request db db' → P db → P db')
    {pool : Pool} (hpool : P pool.db) : P (pool.step postgres request).2.db :=
  step_of_maintains (maintains_body h _) hpool

/-- A purge leaves what has not expired. -/
theorem step_purged (hop : request.op = .purgeExpired) (pool : Pool) :
    (pool.step postgres request).2.db = purged request.time retentionMarginS pool.db := by
  rw [step_purge hop, purgeExpired_eq request.time retentionMarginS rfl, purged]

end Rule

end DealFinder.Store
