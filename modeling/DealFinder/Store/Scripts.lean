/-
# The operations, statement by statement

Each operation is the script of one transaction. Its statements are those of the atomic
bodies, with what they write given as a patch under the locks of the rows; the two
operations with a cap also take the lock of their user. A script that nothing comes
between does what the atomic body does (`alone_script`), so a server that serves one
request at a time steps as the pool does (`run_request`).
-/

import DealFinder.Math.ReadCommitted
import DealFinder.Store.Pool

namespace DealFinder.Store

open DealFinder.Math DealFinder.Shop

/-- The locks of a transaction: advisory ones, and those of rows. -/
inductive Lock
  | advisory (key : BitVec 32)
  | offer (key : OfferKey)
  | watch (key : WatchKey)
  | search (id : Uuid)
  deriving DecidableEq

/-- What a statement writes. -/
abbrev Write := Patch Database Lock

/-- A transaction of a store module, statement by statement. -/
abbrev StoreScript := Script Database Error Lock

/-! ## Patches -/

/-- An offer inserted or refreshed. -/
def setOffer (key : OfferKey) (offer : Offer) : Write :=
  ⟨[.offer key], fun db => { db with offers := db.offers.set key offer }⟩

/-- Offers deleted. -/
def eraseOffers (keys : List OfferKey) : Write :=
  ⟨keys.map .offer, fun db => { db with offers := db.offers.eraseAll keys }⟩

/-- A watch inserted or refreshed. -/
def setWatch (key : WatchKey) (watch : Watch) : Write :=
  ⟨[.watch key], fun db => { db with watchlist := db.watchlist.set key watch }⟩

/-- Watches deleted. -/
def eraseWatches (keys : List WatchKey) : Write :=
  ⟨keys.map .watch, fun db => { db with watchlist := db.watchlist.eraseAll keys }⟩

/-- A saved search inserted. -/
def addSearch (row : SavedSearch) : Write :=
  ⟨[.search row.id], fun db => { db with savedSearches := db.savedSearches ++ [row] }⟩

/-- Saved searches deleted. -/
def eraseSearches (rows : List SavedSearch) : Write :=
  ⟨rows.map fun row => .search row.id, fun db =>
    { db with savedSearches := db.savedSearches.filter fun row => row ∉ rows }⟩

/-! ## Statements -/

section Statements

variable (settings : Settings)

/-- `upsertWatch`, as a patch. -/
def writeWatch (key : WatchKey) (row : Watch) (db : Database) :
    Except Error ((WatchKey × Watch) × Write) :=
  (upsertWatch settings key row db).map fun outcome =>
    (outcome.1, setWatch outcome.1.1 outcome.1.2)

/-- `deleteWatch`, as a patch. -/
def dropWatch (offerId : String) (db : Database) : Except Error (ℕ × Write) :=
  .ok ((deleteWatch settings offerId db).1,
    eraseWatches ((watchlistPolicy settings).goneKeys (fun key _ => key.offerId = offerId)
      db.watchlist))

/-- `insertSearch`, as a patch. -/
def writeSearch (row : SavedSearch) (db : Database) : Except Error (SavedSearch × Write) :=
  (insertSearch settings row db).map fun outcome => (outcome.1, addSearch row)

/-- `deleteSearch`, as a patch. -/
def dropSearch (id : Uuid) (db : Database) : Except Error (ℕ × Write) :=
  .ok ((deleteSearch settings id db).1,
    eraseSearches (db.savedSearches.filter
      ((savedSearchesPolicy settings).gone fun row => row.id = id)))

/-- `upsertOffer`, as a patch. -/
def writeOffer (postgres : Postgres) (tenant : String) (now : ℚ) (p : Row)
    (emb : Option (List ℚ)) (db : Database) : Except Error (Unit × Write) := do
  let embedding ← storedEmbedding postgres p emb
  let (left, _) ← orRowSecurity "offers"
    ((offersPolicy settings).upsert ⟨tenant, p.id⟩ (offerOf now p embedding)
      (fun old => old.refresh (offerOf now p embedding)) db.offers)
  pure ((), setOffer ⟨tenant, p.id⟩ left)

/-- `purgeOffers`, as a patch. -/
def dropOffers (now marginS : ℚ) (db : Database) : Except Error (ℕ × Write) :=
  .ok ((purgeOffers now marginS settings db).1,
    eraseOffers ((offersPolicy settings).goneKeys
      (fun _ offer => expired now marginS (some offer.source) offer.fetchedAt) db.offers))

/-- `purgeWatchlist`, as a patch. -/
def dropWatches (now marginS : ℚ) (db : Database) : Except Error (ℕ × Write) :=
  .ok ((purgeWatchlist now marginS settings db).1,
    eraseWatches ((watchlistPolicy settings).goneKeys
      (fun _ watch => expired now marginS watch.source watch.lastCheckedAt) db.watchlist))

end Statements

/-! ## Scripts -/

section Scripts

variable (hashtext : String → BitVec 32) (postgres : Postgres) (settings : Settings) (now : ℚ)

/-- `_lock_user`. -/
def lockUser (userId : String) : StoreScript Unit := .acquire (.advisory (hashtext userId))

/-- The cap of `add_watch`, statement by statement. -/
def watchRoomScript (offerId : String) : StoreScript Unit := do
  let watched ← Script.read (isWatched settings offerId)
  if watched then pure ()
  else
    let n ← Script.read (countWatches settings)
    if watchLimit ≤ n then .raise .limitExceeded else pure ()

/-- `add_watch`, statement by statement. -/
def addWatchScript (userId tenantId offerId : String) (targetPrice : Option ℚ) :
    StoreScript Watched := do
  match ← Script.read (selectOffer settings offerId) with
  | none => .raise (.lookupError offerId)
  | some offer =>
      if !mayStore offer.source then .raise (.lookupError offerId)
      else
        lockUser hashtext userId
        watchRoomScript settings offerId
        let row ← Script.write (writeWatch settings ⟨userId, offerId⟩
          (watchOf tenantId targetPrice offer now))
        pure (watchCols row)

/-- `add_saved_search`, statement by statement. -/
def addSavedSearchScript (userId query : String) (maxPrice : Option ℚ) (id : Uuid) :
    StoreScript Saved := do
  lockUser hashtext userId
  let n ← Script.read (countSearches settings)
  if savedSearchLimit ≤ n then .raise .limitExceeded
  else
    let row ← Script.write (writeSearch settings ⟨id, userId, query, maxPrice, now⟩)
    pure (savedCols row)

/-- `remove_saved_search`, statement by statement. -/
def removeSavedSearchScript (searchId : String) : StoreScript ℕ :=
  match postgres.uuid searchId with
  | some id => .write (dropSearch settings id)
  | none => .raise (.dataError ("invalid input syntax for type uuid: \"" ++ searchId ++ "\""))

/-- The loop of `upsert`, statement by statement. -/
def upsertRowsScript (tenant : String) : List (Row × Option (List ℚ)) → ℕ → StoreScript ℕ
  | [], written => pure written
  | (p, emb) :: rest, written =>
      if !mayStore p.source then upsertRowsScript tenant rest written
      else do
        Script.write (writeOffer settings postgres tenant now p emb)
        upsertRowsScript tenant rest (written + 1)

/-- `purge_expired`, statement by statement. -/
def purgeExpiredScript (marginS : ℚ) : StoreScript (ℕ × ℕ) := do
  let offers ← Script.write (dropOffers settings now marginS)
  let watchlist ← Script.write (dropWatches settings now marginS)
  pure (offers, watchlist)

/-- An operation, statement by statement. -/
def Op.script (generated : Uuid) : Op → StoreScript Answer
  | .addWatch userId tenantId offerId targetPrice =>
      return .watched
        (← addWatchScript hashtext settings now userId tenantId offerId targetPrice)
  | .listWatch _ =>
      return .watchlist (← Script.read fun db => (selectWatches settings db).map watchCols)
  | .removeWatch _ offerId => return .removed (← Script.write (dropWatch settings offerId))
  | .addSavedSearch userId query maxPrice =>
      return .saved (← addSavedSearchScript hashtext settings now userId query maxPrice generated)
  | .listSavedSearches _ =>
      return .searches (← Script.read fun db => (selectSearches settings db).map savedCols)
  | .removeSavedSearch _ searchId =>
      return .removed (← removeSavedSearchScript postgres settings searchId)
  | .upsert products embeddings tenant =>
      return .written
        (← upsertRowsScript postgres settings now tenant (upsertPairs products embeddings) 0)
  | .semanticSearch queryEmbedding k _ =>
      return .found (← Script.query (searchOffers postgres settings queryEmbedding k))
  | .count _ =>
      return .counted (← Script.read fun db => ((offersPolicy settings).seen db.offers).size)
  | .purgeExpired => do
      let (offers, watchlist) ← purgeExpiredScript settings now retentionMarginS
      return .purged offers watchlist

/-- The script of a request, on a connection with its own settings. -/
def Request.script (session : ℕ → Settings) (request : Request) : StoreScript Answer :=
  request.op.script hashtext postgres (request.op.settings (session request.conn)) request.time
    request.generated

end Scripts

/-! ## Alone -/

section Alone

variable {hashtext : String → BitVec 32} {postgres : Postgres} {settings : Settings} {now : ℚ}

/-- The patch of an offer's `INSERT` has its effect. -/
theorem upsertOffer_eq_write (tenant : String) (p : Row) (emb : Option (List ℚ)) (db : Database) :
    upsertOffer postgres settings tenant now p emb db =
      (writeOffer settings postgres tenant now p emb db).map fun outcome =>
        (outcome.1, outcome.2.change db) := by
  rw [upsertOffer, writeOffer]
  cases storedEmbedding postgres p emb with
  | error e => rfl
  | ok embedding =>
      simp only [bind, Except.bind]
      cases hupsert : (offersPolicy settings).upsert ⟨tenant, p.id⟩ (offerOf now p embedding)
          (fun old => old.refresh (offerOf now p embedding)) db.offers with
      | none => rfl
      | some outcome =>
          obtain ⟨left, after⟩ := outcome
          rw [Policy.upsert_eq_some hupsert]
          rfl

/-- The patch of a watch's `INSERT` has its effect. -/
theorem upsertWatch_eq_write (key : WatchKey) (row : Watch) (db : Database) :
    upsertWatch settings key row db =
      (writeWatch settings key row db).map fun outcome => (outcome.1, outcome.2.change db) := by
  rw [writeWatch, upsertWatch]
  cases hupsert : (watchlistPolicy settings).upsert key row (fun old => old.refresh row)
      db.watchlist with
  | none => rfl
  | some outcome =>
      obtain ⟨left, after⟩ := outcome
      rw [Policy.upsert_eq_some hupsert]
      cases positive "watchlist_target_price_check" row.targetPrice <;> rfl

/-- The patch of a search's `INSERT` has its effect. -/
theorem insertSearch_eq_write (row : SavedSearch) (db : Database) :
    insertSearch settings row db =
      (writeSearch settings row db).map fun outcome => (outcome.1, outcome.2.change db) := by
  rw [writeSearch, insertSearch, Policy.insert]
  by_cases hcheck : (savedSearchesPolicy settings).checks row = true
  · rw [if_pos hcheck]
    cases checkSearch row <;> rfl
  · rw [if_neg hcheck]
    rfl

theorem alone_dropWatch (offerId : String) :
    (Script.write (dropWatch settings offerId)).alone = removeWatch settings offerId :=
  Script.alone_write_ok fun db => ⟨_, rfl, congrArg (fun watchlist => { db with watchlist })
    Policy.deleteFrom_eq.symm⟩

theorem alone_dropSearch (id : Uuid) :
    (Script.write (dropSearch settings id)).alone = Effect.write (deleteSearch settings id) :=
  Script.alone_write_ok fun db => ⟨_, rfl, congrArg (fun savedSearches => { db with savedSearches })
    Policy.delete_eq.symm⟩

theorem alone_dropOffers (marginS : ℚ) :
    (Script.write (dropOffers settings now marginS)).alone =
      Effect.write (purgeOffers now marginS settings) :=
  Script.alone_write_ok fun db => ⟨_, rfl, congrArg (fun offers => { db with offers })
    Policy.deleteFrom_eq.symm⟩

theorem alone_dropWatches (marginS : ℚ) :
    (Script.write (dropWatches settings now marginS)).alone =
      Effect.write (purgeWatchlist now marginS settings) :=
  Script.alone_write_ok fun db => ⟨_, rfl, congrArg (fun watchlist => { db with watchlist })
    Policy.deleteFrom_eq.symm⟩

theorem alone_watchRoomScript (offerId : String) :
    (watchRoomScript settings offerId).alone = watchRoom settings offerId := by
  rw [watchRoomScript, Script.alone_bind, watchRoom]
  congr 1
  funext watched
  cases watched with
  | true => rfl
  | false =>
      simp only [Bool.false_eq_true, if_false, Script.alone_bind, Script.alone_read]
      congr 1
      funext n
      split <;> rfl

theorem alone_addWatchScript (userId tenantId offerId : String) (targetPrice : Option ℚ) :
    (addWatchScript hashtext settings now userId tenantId offerId targetPrice).alone =
      addWatch settings now userId tenantId offerId targetPrice := by
  rw [addWatchScript, Script.alone_bind, addWatch]
  congr 1
  funext offer
  cases offer with
  | none => rfl
  | some offer =>
      by_cases hstore : mayStore offer.source = true
      · simp only [hstore, Bool.not_true, Bool.false_eq_true, if_false, Script.alone_bind,
          alone_watchRoomScript, Script.alone_write fun db => upsertWatch_eq_write _ _ db]
        rfl
      · simp only [Bool.eq_false_of_not_eq_true hstore, Bool.not_false, if_true]
        rfl

theorem alone_addSavedSearchScript (userId query : String) (maxPrice : Option ℚ) (id : Uuid) :
    (addSavedSearchScript hashtext settings now userId query maxPrice id).alone =
      addSavedSearch settings now userId query maxPrice id := by
  rw [addSavedSearchScript, Script.alone_bind, addSavedSearch]
  show (Script.read (countSearches settings) >>= _).alone = _
  rw [Script.alone_bind]
  congr 1
  funext n
  split
  · rfl
  · rw [Script.alone_bind, Script.alone_write fun db => insertSearch_eq_write _ db]
    rfl

theorem alone_removeSavedSearchScript (searchId : String) :
    (removeSavedSearchScript postgres settings searchId).alone =
      removeSavedSearch settings postgres searchId := by
  rw [removeSavedSearchScript, removeSavedSearch]
  cases postgres.uuid searchId with
  | none => rfl
  | some id => exact alone_dropSearch id

theorem alone_upsertRowsScript (tenant : String) (pairs : List (Row × Option (List ℚ)))
    (written : ℕ) :
    (upsertRowsScript postgres settings now tenant pairs written).alone =
      upsertRows postgres settings tenant now pairs written := by
  induction pairs generalizing written with
  | nil => rfl
  | cons pair rest ih =>
      rw [upsertRowsScript, upsertRows_cons]
      split
      · exact ih written
      · rw [Script.alone_bind, Script.alone_write fun db => upsertOffer_eq_write _ _ _ db]
        congr 1
        funext _
        exact ih (written + 1)

theorem alone_purgeExpiredScript (marginS : ℚ) :
    (purgeExpiredScript settings now marginS).alone = purgeExpired now marginS settings := by
  simp only [purgeExpiredScript, Script.alone_bind, alone_dropOffers, alone_dropWatches,
    purgeExpired]
  rfl

/-- **A script alone.** A script that nothing comes between does what the atomic body does. -/
theorem alone_script (generated : Uuid) (op : Op) :
    (op.script hashtext postgres settings now generated).alone =
      op.body postgres settings now generated := by
  cases op with
  | addWatch userId tenantId offerId targetPrice =>
      rw [Op.script, Script.alone_bind, alone_addWatchScript]
      rfl
  | listWatch userId | listSavedSearches userId | count tenant => rfl
  | removeWatch userId offerId =>
      rw [Op.script, Script.alone_bind, alone_dropWatch]
      rfl
  | addSavedSearch userId query maxPrice =>
      rw [Op.script, Script.alone_bind, alone_addSavedSearchScript]
      rfl
  | removeSavedSearch userId searchId =>
      rw [Op.script, Script.alone_bind, alone_removeSavedSearchScript]
      rfl
  | upsert products embeddings tenant =>
      rw [Op.script, Script.alone_bind, alone_upsertRowsScript]
      rfl
  | semanticSearch queryEmbedding k tenant =>
      rw [Op.script, Script.alone_bind, Script.alone_query]
      rfl
  | purgeExpired =>
      rw [Op.script, Script.alone_bind, alone_purgeExpiredScript]
      rfl

end Alone

/-! ## The server of the store -/

/-- A server of the store, with nothing stored and no transaction running. -/
def emptyServer (τ : Type) : Server Database Error Lock Answer Request τ :=
  ⟨.empty, fun _ => none, fun _ => none⟩

/-- **One request at a time.** On a server where nothing else runs, a request is answered as
the pool answers it, and leaves what the pool leaves. -/
theorem run_request {τ : Type} [DecidableEq τ] (hashtext : String → BitVec 32)
    (postgres : Postgres) (session : ℕ → Settings)
    (s : Server Database Error Lock Answer Request τ) (thread : τ)
    (hidle : s.running thread = none) (hlocks : ∀ key, s.locks key = none) (request : Request) :
    ∃ n, (Server.machine (Request.script hashtext postgres session)).answerAfter s
        (⟨thread, .begin request⟩ :: List.replicate n (Server.next thread)) (Server.next thread) =
          .ended request ((Pool.mk s.committed session).step postgres request).1 ∧
      (Server.machine (Request.script hashtext postgres session)).run s
        (⟨thread, .begin request⟩ :: List.replicate (n + 1) (Server.next thread)) =
          { s with committed := ((Pool.mk s.committed session).step postgres request).2.db } := by
  obtain ⟨n, hanswer, hrun⟩ :=
    @Server.run_solo _ _ _ _ _ _ _ _ (Request.script hashtext postgres session) thread s hidle
      hlocks request
  have hbody : (Request.script hashtext postgres session request).alone s.committed =
      (Pool.mk s.committed session).transaction postgres request := by
    rw [Request.script, alone_script, Pool.transaction]
  rw [hbody] at hanswer hrun
  refine ⟨n, ?_, ?_⟩
  · rw [hanswer, Pool.step]
    cases (Pool.mk s.committed session).transaction postgres request with
    | mk result after => cases result <;> rfl
  · rw [hrun, Pool.step]
    cases (Pool.mk s.committed session).transaction postgres request with
    | mk result after => cases result <;> rfl

end DealFinder.Store
