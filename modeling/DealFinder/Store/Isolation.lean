/-
# Isolation

No query names a user or a tenant to filter by. The policies do, under the settings
of the transaction: a user's operations read the catalog and the user's own rows and
write the latter, and those of another user leave both. Likewise for the offers of a
tenant.

So neither a user nor a tenant can tell a run from the run without the operations of
the others (`isolated`).
-/

import DealFinder.Store.Pool

namespace DealFinder.Store

open DealFinder.Math DealFinder.Shop

/-! ## What an observer sees -/

/-- The same catalog, and the same rows of a user. -/
structure SameForUser (userId : String) (db db' : Database) : Prop where
  offers : db.offers = db'.offers
  watchlist : (db.watchlist.filter fun key _ => key.ownedBy userId) =
    db'.watchlist.filter fun key _ => key.ownedBy userId
  savedSearches : db.savedSearches.filter (SavedSearch.ownedBy userId) =
    db'.savedSearches.filter (SavedSearch.ownedBy userId)

/-- The same offers of a tenant. -/
def SameForTenant (tenantId : String) (db db' : Database) : Prop :=
  (db.offers.filter fun key _ => key.ownedBy tenantId) =
    db'.offers.filter fun key _ => key.ownedBy tenantId

/-! ## Operations of a user -/

section User

variable {userId : String} {db db' : Database}

/-- A user's key is found among the user's rows. -/
theorem SameForUser.get? (h : SameForUser userId db db') (offerId : String) :
    db.watchlist.get? ⟨userId, offerId⟩ = db'.watchlist.get? ⟨userId, offerId⟩ := by
  have hkey : WatchKey.ownedBy userId ⟨userId, offerId⟩ = true := decide_eq_true rfl
  rw [← Dict.get?_part hkey db.watchlist, h.watchlist, Dict.get?_part hkey]

end User

section Respects

variable {settings : Settings} {tenantId userId : String}

namespace Settings.Scopes

theorem select_savedSearches (h : settings.Scopes tenantId userId) (rows : List SavedSearch) :
    (savedSearchesPolicy settings).select rows = rows.filter (SavedSearch.ownedBy userId) := by
  rw [h.savedSearchesPolicy_eq]
  rfl

theorem respects_watchRoom (h : settings.Scopes tenantId userId) (offerId : String) :
    Effect.Respects (SameForUser userId) (watchRoom settings offerId) := by
  refine Effect.Respects.bind (Effect.respects_read fun db db' hsame => ?_) fun watched => ?_
  · rw [h.isWatched_eq, h.isWatched_eq]
    simp only [← Dict.get?_isSome_iff, hsame.get?]
  split
  · exact Effect.respects_pure _
  refine Effect.Respects.bind (Effect.respects_read fun db db' hsame => ?_) fun n => ?_
  · rw [h.countWatches_eq, h.countWatches_eq, hsame.watchlist]
  split
  · exact Effect.respects_raise _
  · exact Effect.respects_pure _

theorem respects_upsertWatch (h : settings.Scopes tenantId userId) (offerId : String)
    (row : Watch) :
    Effect.Respects (SameForUser userId)
      (Effect.attempt (upsertWatch settings ⟨userId, offerId⟩ row)) := by
  refine Effect.respects_attempt
    (fun db db' _ => ⟨h.upsertWatch_eq offerId row db, h.upsertWatch_eq offerId row db'⟩) ?_
  intro _ db db' hsame
  simp only [hsame.get? offerId, true_and]
  refine ⟨hsame.offers, ?_, hsame.savedSearches⟩
  have hkey : WatchKey.ownedBy userId ⟨userId, offerId⟩ = true := decide_eq_true rfl
  simp only [Dict.filter_set_of_pos hkey, hsame.watchlist]

theorem respects_addWatch (h : settings.Scopes tenantId userId) (now : ℚ) (offerId : String)
    (targetPrice : Option ℚ) :
    Effect.Respects (SameForUser userId)
      (addWatch settings now userId tenantId offerId targetPrice) := by
  refine Effect.Respects.bind (Effect.respects_read fun db db' hsame => ?_) fun offer => ?_
  · rw [h.selectOffer_eq, h.selectOffer_eq, hsame.offers]
  cases offer with
  | none => exact Effect.respects_raise _
  | some offer =>
      simp only
      split
      · exact Effect.respects_raise _
      · exact (h.respects_watchRoom offerId).bind fun _ =>
          (h.respects_upsertWatch offerId _).returning _

theorem respects_listWatch (h : settings.Scopes tenantId userId) :
    Effect.Respects (SameForUser userId) (listWatch settings) := by
  apply Effect.respects_read
  intro db db' hsame
  simp only [selectWatches, h.owns_watchlist.seen_eq, hsame.watchlist]

theorem respects_removeWatch (h : settings.Scopes tenantId userId) (offerId : String) :
    Effect.Respects (SameForUser userId) (removeWatch settings offerId) := by
  refine Effect.respects_write fun db db' hsame => ⟨?_, hsame.offers, ?_, hsame.savedSearches⟩
  · simp only [deleteWatch, Policy.deleteFrom_count, h.owns_watchlist.seen_eq, hsame.watchlist]
  · simp only [deleteWatch, ← h.owns_watchlist.seen_eq, Policy.seen_deleteFrom]
    simp only [h.owns_watchlist.seen_eq, hsame.watchlist]

theorem respects_addSavedSearch (h : settings.Scopes tenantId userId) (now : ℚ) (query : String)
    (maxPrice : Option ℚ) (id : Uuid) :
    Effect.Respects (SameForUser userId)
      (addSavedSearch settings now userId query maxPrice id) := by
  refine Effect.Respects.bind (Effect.respects_read fun db db' hsame => ?_) fun n => ?_
  · rw [h.countSearches_eq, h.countSearches_eq, hsame.savedSearches]
  split
  · exact Effect.respects_raise _
  refine Effect.Respects.bind ?_ fun _ => Effect.respects_pure _
  refine Effect.respects_attempt
    (fun db db' _ => ⟨h.insertSearch_eq rfl db, h.insertSearch_eq rfl db'⟩) ?_
  intro _ db db' hsame
  refine ⟨rfl, hsame.offers, hsame.watchlist, ?_⟩
  simp only [List.filter_append, hsame.savedSearches]

theorem respects_listSavedSearches (h : settings.Scopes tenantId userId) :
    Effect.Respects (SameForUser userId) (listSavedSearches settings) := by
  apply Effect.respects_read
  intro db db' hsame
  simp only [selectSearches, h.select_savedSearches, hsame.savedSearches]

theorem respects_removeSavedSearch (h : settings.Scopes tenantId userId) (postgres : Postgres)
    (searchId : String) :
    Effect.Respects (SameForUser userId) (removeSavedSearch settings postgres searchId) := by
  rw [removeSavedSearch]
  cases postgres.uuid searchId with
  | none => exact Effect.respects_raise _
  | some id =>
      refine Effect.respects_write fun db db' hsame => ⟨?_, hsame.offers, hsame.watchlist, ?_⟩
      · simp only [deleteSearch, Policy.delete_count, h.select_savedSearches, hsame.savedSearches]
      · simp only [deleteSearch, ← h.select_savedSearches, Policy.select_delete]
        simp only [h.select_savedSearches, hsame.savedSearches]

end Settings.Scopes

end Respects

/-! ## Operations of another user -/

section Others

variable {settings : Settings} {tenantId userId other : String} {db' : Database}

namespace Settings.Scopes

theorem spares_upsertWatch (h : settings.Scopes tenantId other) (hother : other ≠ userId)
    (offerId : String) (row : Watch) :
    Effect.Maintains (fun db => SameForUser userId db db')
      (Effect.attempt (upsertWatch settings ⟨other, offerId⟩ row)) := by
  apply Effect.maintains_attempt
  intro db _ after hsame hrun
  obtain ⟨-, rfl, rfl⟩ := h.upsertWatch_ok hrun
  have hkey : WatchKey.ownedBy userId ⟨other, offerId⟩ = false := decide_eq_false hother
  exact ⟨hsame.offers, (Dict.filter_set_of_neg hkey ..).trans hsame.watchlist,
    hsame.savedSearches⟩

theorem spares_removeWatch (h : settings.Scopes tenantId other) (hother : other ≠ userId)
    (offerId : String) :
    Effect.Maintains (fun db => SameForUser userId db db') (removeWatch settings offerId) := by
  refine Effect.maintains_write fun db hsame => ⟨hsame.offers, ?_, hsame.savedSearches⟩
  have hkeys : ∀ key : WatchKey, key.ownedBy userId = true → key.ownedBy other = false := by
    intro key hkey
    exact decide_eq_false fun heq => hother (heq.symm.trans (of_decide_eq_true hkey))
  have hdisjoint := (Policy.owns_same (ν := Watch) (WatchKey.ownedBy userId)).disjoint
    h.owns_watchlist hkeys
  simp only [deleteWatch]
  exact (Policy.seen_deleteFrom_of_disjoint hdisjoint).trans hsame.watchlist

theorem spares_insertSearch (h : settings.Scopes tenantId other) (hother : other ≠ userId)
    {row : SavedSearch} (hrow : row.userId = other) :
    Effect.Maintains (fun db => SameForUser userId db db')
      (Effect.attempt (insertSearch settings row)) := by
  apply Effect.maintains_attempt
  intro db _ after hsame hrun
  rw [h.insertSearch_ok hrow hrun]
  refine ⟨hsame.offers, hsame.watchlist, ?_⟩
  have hnot : row.ownedBy userId = false := decide_eq_false (hrow.trans_ne hother)
  rw [← hsame.savedSearches, List.filter_append, List.filter_cons_of_neg (by rw [hnot]; decide)]
  exact List.append_nil _

theorem spares_deleteSearch (h : settings.Scopes tenantId other) (hother : other ≠ userId)
    (id : Uuid) :
    Effect.Maintains (fun db => SameForUser userId db db')
      (Effect.write (deleteSearch settings id) : Txn ℕ) := by
  refine Effect.maintains_write fun db hsame => ⟨hsame.offers, hsame.watchlist, ?_⟩
  have hdisjoint : (Policy.same (SavedSearch.ownedBy userId)).Disjoint
      (savedSearchesPolicy settings) := by
    intro row hrow
    rw [h.savedSearchesPolicy_eq]
    exact decide_eq_false fun heq => hother (heq.symm.trans (of_decide_eq_true hrow))
  exact (Policy.select_delete_of_disjoint hdisjoint).trans hsame.savedSearches

end Settings.Scopes

end Others

/-! ## Operations on the catalog -/

section Catalog

variable {settings : Settings} {tenantId userId : String} {postgres : Postgres} {now : ℚ}

namespace Settings.Scopes

/-- A tenant's writes look alike wherever the tenant's offers do. -/
theorem respects_upsertOffer (h : settings.Scopes tenantId userId) (p : Row)
    (emb : Option (List ℚ)) :
    Effect.Respects (SameForTenant tenantId)
      (Effect.attempt (upsertOffer postgres settings tenantId now p emb)) := by
  refine Effect.respects_attempt
    (fun db db' _ => ⟨upsertOffer_eq postgres now h p emb db,
      upsertOffer_eq postgres now h p emb db'⟩) ?_
  intro embedding db db' hsame
  have hkey : OfferKey.ownedBy tenantId ⟨tenantId, p.id⟩ = true := decide_eq_true rfl
  have hget : db.offers.get? ⟨tenantId, p.id⟩ = db'.offers.get? ⟨tenantId, p.id⟩ := by
    rw [← Dict.get?_part hkey db.offers, hsame, Dict.get?_part hkey]
  refine ⟨rfl, ?_⟩
  simp only [SameForTenant, Dict.filter_set_of_pos hkey, hget]
  rw [hsame]

theorem spares_upsertOffer {other : String} (h : settings.Scopes other userId)
    (hother : other ≠ tenantId) {db' : Database} (p : Row) (emb : Option (List ℚ)) :
    Effect.Maintains (fun db => SameForTenant tenantId db db')
      (Effect.attempt (upsertOffer postgres settings other now p emb)) := by
  apply Effect.maintains_attempt
  intro db _ after hsame hrun
  obtain ⟨embedding, -, rfl⟩ := upsertOffer_ok postgres now h hrun
  have hkey : OfferKey.ownedBy tenantId ⟨other, p.id⟩ = false := decide_eq_false hother
  exact (Dict.filter_set_of_neg hkey ..).trans hsame

theorem respects_semanticSearch (h : settings.Scopes tenantId userId) (queryEmbedding : List ℚ)
    (k : ℤ) :
    Effect.Respects (SameForTenant tenantId)
      (semanticSearch postgres settings queryEmbedding k) := by
  apply Effect.respects_query
  intro db db' hsame
  simp only [searchOffers, h.owns_offers.seen_eq]
  rw [hsame]

theorem respects_count (h : settings.Scopes tenantId userId) :
    Effect.Respects (SameForTenant tenantId) (count settings) := by
  apply Effect.respects_read
  intro db db' hsame
  rw [h.owns_offers.seen_eq, h.owns_offers.seen_eq, hsame]

end Settings.Scopes

end Catalog

/-! ## Runs -/

/-- The user whose private data an operation works on. -/
def Op.user? : Op → Option String
  | .addWatch userId .. | .listWatch userId | .removeWatch userId _ => some userId
  | .addSavedSearch userId .. | .listSavedSearches userId | .removeSavedSearch userId _ =>
      some userId
  | .upsert .. | .semanticSearch .. | .count _ | .purgeExpired => none

/-- The tenant whose catalog an operation works on. -/
def Op.tenant? : Op → Option String
  | .upsert _ _ tenant | .semanticSearch _ _ tenant | .count tenant => some tenant
  | _ => none

/-- The tenant whose catalog an operation writes. -/
def Op.writes? : Op → Option String
  | .upsert _ _ tenant => some tenant
  | _ => none

section Run

variable {postgres : Postgres} {pool pool' : Pool} {request : Request} {userId tenantId : String}

/-- Operations on the catalog look at no private row. -/
theorem respects_catalog {settings : Settings} {tenant : String} {now : ℚ}
    (h : settings.Scopes tenant "") :
    (∀ products embeddings, Effect.Respects (SameForUser userId)
      (upsert postgres settings tenant now products embeddings)) ∧
    (∀ queryEmbedding k, Effect.Respects (SameForUser userId)
      (semanticSearch postgres settings queryEmbedding k)) ∧
    Effect.Respects (SameForUser userId) (count settings) := by
  refine ⟨fun products embeddings => respects_upsert (fun p emb => ?_) products embeddings,
    fun queryEmbedding k => Effect.respects_query fun db db' hsame => ?_,
    Effect.respects_read fun db db' hsame => ?_⟩
  · refine Effect.respects_attempt (fun db db' _ =>
      ⟨upsertOffer_eq postgres now h p emb db, upsertOffer_eq postgres now h p emb db'⟩) ?_
    intro embedding db db' hsame
    rw [hsame.offers]
    exact ⟨rfl, rfl, hsame.watchlist, hsame.savedSearches⟩
  · rw [searchOffers, searchOffers, hsame.offers]
  · rw [hsame.offers]

/-- A purge leaves the same to databases that were the same. -/
theorem sameForUser_purge {settings settings' : Settings} {now marginS : ℚ} {db db' : Database}
    (hjob : settings.role = .job) (hjob' : settings'.role = .job)
    (h : SameForUser userId db db') :
    SameForUser userId (purgeExpired now marginS settings db).2
      (purgeExpired now marginS settings' db').2 := by
  rw [purgeExpired_eq now marginS hjob, purgeExpired_eq now marginS hjob']
  refine ⟨by rw [h.offers], ?_, h.savedSearches⟩
  rw [Dict.filter_comm, h.watchlist, Dict.filter_comm]

/-- An operation of the user, or on the catalog, looks alike wherever the user's data does.
A purge does not: its counts tell of all rows. -/
theorem respects_body {op : Op} (hop : op.user? = none ∨ op.user? = some userId)
    (hpurge : op ≠ .purgeExpired) (session : Settings) (now : ℚ) (generated : Uuid) :
    Effect.Respects (SameForUser userId)
      (op.body postgres (op.settings session) now generated) := by
  have huser : ∀ user, some user = none ∨ some user = some userId → user = userId := by
    intro user h
    exact Option.some.inj (h.resolve_left (by simp))
  have hscope := fun user => scopes_user user defaultTenant session
  have hcatalog := fun tenant => @respects_catalog postgres userId _ tenant now
    (scopes_catalog tenant session)
  cases op with
  | addWatch user tenant offerId targetPrice =>
      obtain rfl := huser user hop
      exact ((scopes_user user tenant session).respects_addWatch _ _ _).returning _
  | listWatch user =>
      obtain rfl := huser user hop
      exact (hscope user).respects_listWatch.returning _
  | removeWatch user offerId =>
      obtain rfl := huser user hop
      exact ((hscope user).respects_removeWatch _).returning _
  | addSavedSearch user query maxPrice =>
      obtain rfl := huser user hop
      exact ((hscope user).respects_addSavedSearch _ _ _ _).returning _
  | listSavedSearches user =>
      obtain rfl := huser user hop
      exact (hscope user).respects_listSavedSearches.returning _
  | removeSavedSearch user searchId =>
      obtain rfl := huser user hop
      exact ((hscope user).respects_removeSavedSearch _ _).returning _
  | upsert products embeddings tenant =>
      exact ((hcatalog tenant).1 products embeddings).returning _
  | semanticSearch queryEmbedding k tenant =>
      exact ((hcatalog tenant).2.1 queryEmbedding k).returning _
  | count tenant => exact (hcatalog tenant).2.2.returning _
  | purgeExpired => exact absurd rfl hpurge

/-- An operation of another user spares the user's data. -/
theorem spares_body {op : Op} {other : String} (hop : op.user? = some other)
    (hother : other ≠ userId) (session : Settings) (now : ℚ) (generated : Uuid) {db' : Database} :
    Effect.Maintains (fun db => SameForUser userId db db')
      (op.body postgres (op.settings session) now generated) := by
  have hscope := scopes_user other defaultTenant session
  cases op with
  | addWatch user tenant offerId targetPrice =>
      obtain rfl := Option.some.inj hop
      exact (maintains_addWatch fun row =>
        (scopes_user user tenant session).spares_upsertWatch hother offerId row).returning _
  | listWatch user => exact (Effect.maintains_read _).returning _
  | removeWatch user offerId =>
      obtain rfl := Option.some.inj hop
      exact (hscope.spares_removeWatch hother offerId).returning _
  | addSavedSearch user query maxPrice =>
      obtain rfl := Option.some.inj hop
      exact (maintains_addSavedSearch
        (hscope.spares_insertSearch hother rfl)).returning _
  | listSavedSearches user => exact (Effect.maintains_read _).returning _
  | removeSavedSearch user searchId =>
      obtain rfl := Option.some.inj hop
      exact (maintains_removeSavedSearch fun id =>
        hscope.spares_deleteSearch hother id).returning _
  | upsert | semanticSearch | count | purgeExpired => cases hop

/-- An operation that writes no catalog, or another tenant's, spares a tenant's offers. -/
theorem spares_offers {op : Op} (hop : op.writes? ≠ some tenantId) (hpurge : op ≠ .purgeExpired)
    (session : Settings) (now : ℚ) (generated : Uuid) {db' : Database} :
    Effect.Maintains (fun db => SameForTenant tenantId db db')
      (op.body postgres (op.settings session) now generated) := by
  cases op with
  | addWatch user tenant offerId targetPrice =>
      refine (maintains_addWatch fun row => ?_).returning _
      apply Effect.maintains_attempt
      intro db _ after hsame hrun
      obtain ⟨-, -, rfl⟩ := (scopes_user user tenant session).upsertWatch_ok hrun
      exact hsame
  | listWatch user => exact (Effect.maintains_read _).returning _
  | removeWatch user offerId =>
      exact (Effect.maintains_write fun _ hsame => hsame).returning _
  | addSavedSearch user query maxPrice =>
      refine (maintains_addSavedSearch ?_).returning _
      apply Effect.maintains_attempt
      intro db _ after hsame hrun
      rw [(scopes_user user defaultTenant session).insertSearch_ok rfl hrun]
      exact hsame
  | listSavedSearches user => exact (Effect.maintains_read _).returning _
  | removeSavedSearch user searchId =>
      exact (maintains_removeSavedSearch fun _ =>
        Effect.maintains_write fun _ hsame => hsame).returning _
  | upsert products embeddings tenant =>
      have hother : tenant ≠ tenantId := fun heq => hop (congrArg some heq)
      exact (maintains_upsert fun pair _ _ => (scopes_catalog tenant session).spares_upsertOffer
        hother pair.1 pair.2).returning _
  | semanticSearch queryEmbedding k tenant =>
      exact (Effect.maintains_query _).returning _
  | count tenant => exact (Effect.maintains_read _).returning _
  | purgeExpired => exact absurd rfl hpurge

/-- A tenant's operations on the catalog look alike wherever its offers do. -/
theorem respects_tenant {op : Op} (hop : op.tenant? = some tenantId) (session : Settings) (now : ℚ)
    (generated : Uuid) :
    Effect.Respects (SameForTenant tenantId)
      (op.body postgres (op.settings session) now generated) := by
  have hscope := scopes_catalog tenantId session
  cases op with
  | upsert products embeddings tenant =>
      obtain rfl := Option.some.inj hop
      exact (respects_upsert hscope.respects_upsertOffer products embeddings).returning _
  | semanticSearch queryEmbedding k tenant =>
      obtain rfl := Option.some.inj hop
      exact (hscope.respects_semanticSearch queryEmbedding k).returning _
  | count tenant =>
      obtain rfl := Option.some.inj hop
      exact hscope.respects_count.returning _
  | addWatch | listWatch | removeWatch | addSavedSearch | listSavedSearches
  | removeSavedSearch | purgeExpired => cases hop

/-- A purge leaves the same offers to databases that had the same. -/
theorem sameForTenant_purge {settings settings' : Settings} {now marginS : ℚ} {db db' : Database}
    (hjob : settings.role = .job) (hjob' : settings'.role = .job)
    (h : SameForTenant tenantId db db') :
    SameForTenant tenantId (purgeExpired now marginS settings db).2
      (purgeExpired now marginS settings' db').2 := by
  rw [purgeExpired_eq now marginS hjob, purgeExpired_eq now marginS hjob', SameForTenant,
    Dict.filter_comm, h, Dict.filter_comm]

end Run

/-- What a user is answered. -/
def answerToUser (userId : String) (request : Request) (answer : Except Error Answer) :
    Option (Except Error Answer) :=
  if request.op.user? = some userId then some answer else none

/-- What is answered of a tenant's catalog. -/
def answerOfCatalog (tenantId : String) (request : Request) (answer : Except Error Answer) :
    Option (Except Error Answer) :=
  if request.op.tenant? = some tenantId then some answer else none

/-- Not an operation of another user. -/
def notOfOthers (userId : String) (request : Request) : Bool :=
  request.op.user?.all fun user => user = userId

/-- Not an `upsert` of another tenant. -/
def notWrittenByOthers (tenantId : String) (request : Request) : Bool :=
  request.op.writes?.all fun tenant => tenant = tenantId

section Observe

variable {postgres : Postgres} {userId tenantId : String} {pool pool' : Pool} {request : Request}

/-- What a user is answered, and sees after it, depends on what the user saw before. -/
theorem step_kept_user (hsession : pool.session = pool'.session)
    (hsame : SameForUser userId pool.db pool'.db) (hkeep : notOfOthers userId request = true) :
    answerToUser userId request (pool.step postgres request).1 =
      answerToUser userId request (pool'.step postgres request).1 ∧
    SameForUser userId (pool.step postgres request).2.db (pool'.step postgres request).2.db := by
  by_cases hpurge : request.op = .purgeExpired
  · rw [step_purge hpurge, step_purge hpurge]
    refine ⟨?_, sameForUser_purge rfl rfl hsame⟩
    simp [answerToUser, hpurge, Op.user?]
  · have hop : request.op.user? = none ∨ request.op.user? = some userId := by
      cases huser : request.op.user? with
      | none => exact Or.inl rfl
      | some user =>
          simp only [notOfOthers, huser, Option.all_some, decide_eq_true_iff] at hkeep
          exact Or.inr (congrArg some hkeep)
    have hstep := step_of_respects hsession
      (@respects_body postgres userId request.op hop hpurge _ _ _) hsame
    exact ⟨congrArg _ hstep.1, hstep.2⟩

/-- What another user is answered tells the user nothing, and leaves what the user sees. -/
theorem step_hidden_user (hsame : SameForUser userId pool.db pool'.db)
    (hkeep : notOfOthers userId request = false) :
    answerToUser userId request (pool.step postgres request).1 = none ∧
    SameForUser userId (pool.step postgres request).2.db pool'.db := by
  cases huser : request.op.user? with
  | none => simp [notOfOthers, huser] at hkeep
  | some other =>
      simp only [notOfOthers, huser, Option.all_some, decide_eq_false_iff_not] at hkeep
      refine ⟨?_, step_of_maintains (spares_body huser hkeep _ _ _) hsame⟩
      rw [answerToUser, huser, if_neg fun heq => hkeep (Option.some.inj heq)]

/-- What is answered of a tenant's catalog, and its offers after, depend on its offers before. -/
theorem step_kept_tenant (hsession : pool.session = pool'.session)
    (hsame : SameForTenant tenantId pool.db pool'.db) :
    answerOfCatalog tenantId request (pool.step postgres request).1 =
      answerOfCatalog tenantId request (pool'.step postgres request).1 ∧
    SameForTenant tenantId (pool.step postgres request).2.db
      (pool'.step postgres request).2.db := by
  by_cases hpurge : request.op = .purgeExpired
  · rw [step_purge hpurge, step_purge hpurge]
    refine ⟨?_, sameForTenant_purge rfl rfl hsame⟩
    simp [answerOfCatalog, hpurge, Op.tenant?]
  by_cases htenant : request.op.tenant? = some tenantId
  · have hstep := step_of_respects hsession
      (@respects_tenant postgres tenantId request.op htenant _ _ _) hsame
    exact ⟨congrArg _ hstep.1, hstep.2⟩
  · have hwrites : request.op.writes? ≠ some tenantId := by
      intro hwrites
      cases hop : request.op with
      | upsert => exact htenant (by rw [hop] at hwrites ⊢; exact hwrites)
      | _ => rw [hop] at hwrites; cases hwrites
    refine ⟨by simp only [answerOfCatalog, if_neg htenant], ?_⟩
    have hleft : SameForTenant tenantId (pool.step postgres request).2.db pool.db :=
      step_of_maintains (spares_offers hwrites hpurge _ _ _) rfl
    have hright : SameForTenant tenantId (pool'.step postgres request).2.db pool'.db :=
      step_of_maintains (spares_offers hwrites hpurge _ _ _) rfl
    exact hleft.trans (hsame.trans hright.symm)

theorem step_hidden_tenant (hsame : SameForTenant tenantId pool.db pool'.db)
    (hkeep : notWrittenByOthers tenantId request = false) :
    answerOfCatalog tenantId request (pool.step postgres request).1 = none ∧
    SameForTenant tenantId (pool.step postgres request).2.db pool'.db := by
  cases hop : request.op with
  | upsert products embeddings tenant =>
      have hother : tenant ≠ tenantId := by
        simpa [notWrittenByOthers, hop, Op.writes?] using hkeep
      refine ⟨?_, step_of_maintains (spares_offers ?_ ?_ _ _ _) hsame⟩
      · simp [answerOfCatalog, hop, Op.tenant?, hother]
      · simpa [hop, Op.writes?] using hother
      · simp [hop]
  | _ => simp [notWrittenByOthers, hop, Op.writes?] at hkeep

/-- An observer records the same without the requests that are not kept, when those that are
respect a relation on databases and the others leave it. -/
theorem observe_pool {R : Database → Database → Prop} {keep : Request → Bool}
    {f : Request → Except Error Answer → Option (Except Error Answer)}
    (hkept : ∀ (pool pool' : Pool) (request : Request), pool.session = pool'.session →
      R pool.db pool'.db → keep request = true →
        f request (pool.step postgres request).1 = f request (pool'.step postgres request).1 ∧
          R (pool.step postgres request).2.db (pool'.step postgres request).2.db)
    (hhidden : ∀ (pool pool' : Pool) (request : Request), R pool.db pool'.db →
      keep request = false → f request (pool.step postgres request).1 = none ∧
        R (pool.step postgres request).2.db pool'.db)
    (requests : List Request) (pool : Pool) (hrefl : R pool.db pool.db) :
    (machine postgres).observe f pool requests =
      (machine postgres).observe f pool (requests.filter keep) := by
  have hsame : pool.session = pool.session ∧ R pool.db pool.db := ⟨rfl, hrefl⟩
  refine Machine.observe_filter
    (R := fun pool pool' => pool.session = pool'.session ∧ R pool.db pool'.db)
    (fun pool pool' request h hkeep => ?_) (fun pool pool' request h hkeep => ?_) requests hsame
  · have hstep := hkept pool pool' request h.1 h.2 hkeep
    exact ⟨hstep.1, session_step.trans (h.1.trans session_step.symm), hstep.2⟩
  · have hstep := hhidden pool pool' request h.2 hkeep
    exact ⟨hstep.1, session_step.trans h.1, hstep.2⟩

end Observe

/-- **Isolation.** In every run, a user is answered as in the run without the operations of
other users, and a tenant's catalog answers as in the run without the writes of other
tenants. -/
theorem isolated (postgres : Postgres) (pool : Pool) (requests : List Request) :
    (∀ userId, (machine postgres).observe (answerToUser userId) pool requests =
      (machine postgres).observe (answerToUser userId) pool
        (requests.filter (notOfOthers userId))) ∧
    ∀ tenantId, (machine postgres).observe (answerOfCatalog tenantId) pool requests =
      (machine postgres).observe (answerOfCatalog tenantId) pool
        (requests.filter (notWrittenByOthers tenantId)) := by
  constructor
  · intro userId
    exact observe_pool (fun _ _ _ => step_kept_user) (fun _ _ _ => step_hidden_user) requests pool
      ⟨rfl, rfl, rfl⟩
  · intro tenantId
    exact observe_pool (fun _ _ _ hsession hsame _ => step_kept_tenant hsession hsame)
      (fun _ _ _ => step_hidden_tenant) requests pool rfl

end DealFinder.Store
