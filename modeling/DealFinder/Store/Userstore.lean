/-
# Private data of users

The watchlist and the saved searches, each in one transaction scoped to its user. A
watch copies its title, link and price from the catalog of a tenant.
-/

import DealFinder.Shop.Licensing
import DealFinder.Store.Database

namespace DealFinder.Store

open DealFinder.Math DealFinder.Shop

/-- `WATCH_LIMIT`. -/
def watchLimit : ℕ := 200

/-- `SAVED_SEARCH_LIMIT`. -/
def savedSearchLimit : ℕ := 50

/-- A watch as it is returned: `_WATCH_COLS`. -/
structure Watched where
  offerId : String
  title : String
  url : Option String
  imageUrl : Option String
  source : Option String
  targetPrice : Option ℚ
  lastPrice : ℚ
  lastCheckedAt : ℚ
  createdAt : ℚ
  hit : Bool
  deriving DecidableEq

/-- `_WATCH_COLS` of a row. -/
def watchCols (row : WatchKey × Watch) : Watched where
  offerId := row.1.offerId
  title := row.2.title
  url := row.2.url
  imageUrl := row.2.imageUrl
  source := row.2.source
  targetPrice := row.2.targetPrice
  lastPrice := row.2.lastPrice
  lastCheckedAt := row.2.lastCheckedAt
  createdAt := row.2.createdAt
  hit := row.2.targetPrice.any fun target => row.2.lastPrice ≤ target

/-- A saved search as it is returned. -/
structure Saved where
  id : Uuid
  query : String
  maxPrice : Option ℚ
  createdAt : ℚ
  deriving DecidableEq

/-- The returned columns of a saved search. -/
def savedCols (row : SavedSearch) : Saved := ⟨row.id, row.query, row.maxPrice, row.createdAt⟩

/-- The row that `add_watch` proposes. -/
def watchOf (tenantId : String) (targetPrice : Option ℚ) (offer : Offer) (now : ℚ) : Watch where
  tenantId := tenantId
  title := offer.title
  url := offer.url
  imageUrl := offer.imageUrl
  source := some offer.source
  targetPrice := targetPrice
  lastPrice := offer.price
  lastCheckedAt := offer.fetchedAt
  createdAt := now

section Bodies

variable (settings : Settings) (now : ℚ)

/-- The cap of `add_watch`: an item that is not watched yet needs room. -/
def watchRoom (offerId : String) : Txn Unit := do
  let watched ← Effect.read (isWatched settings offerId)
  if watched then pure ()
  else
    let n ← Effect.read (countWatches settings)
    if watchLimit ≤ n then Effect.raise .limitExceeded else pure ()

/-- `add_watch`. The lock of `_lock_user` matters to concurrent transactions only. -/
def addWatch (userId tenantId offerId : String) (targetPrice : Option ℚ) : Txn Watched := do
  match ← Effect.read (selectOffer settings offerId) with
  | none => Effect.raise (.lookupError offerId)
  | some offer =>
      if !mayStore offer.source then Effect.raise (.lookupError offerId)
      else
        watchRoom settings offerId
        let row ← Effect.attempt (upsertWatch settings ⟨userId, offerId⟩
          (watchOf tenantId targetPrice offer now))
        pure (watchCols row)

/-- `list_watch`. -/
def listWatch : Txn (List Watched) :=
  Effect.read fun db => (selectWatches settings db).map watchCols

/-- `remove_watch`. -/
def removeWatch (offerId : String) : Txn ℕ := Effect.write (deleteWatch settings offerId)

/-- `add_saved_search`. -/
def addSavedSearch (userId query : String) (maxPrice : Option ℚ) (id : Uuid) : Txn Saved := do
  let n ← Effect.read (countSearches settings)
  if savedSearchLimit ≤ n then Effect.raise .limitExceeded
  else
    let row ← Effect.attempt (insertSearch settings ⟨id, userId, query, maxPrice, now⟩)
    pure (savedCols row)

/-- `list_saved_searches`. -/
def listSavedSearches : Txn (List Saved) :=
  Effect.read fun db => (selectSearches settings db).map savedCols

/-- `remove_saved_search`. -/
def removeSavedSearch (postgres : Postgres) (searchId : String) : Txn ℕ :=
  match postgres.uuid searchId with
  | some id => Effect.write (deleteSearch settings id)
  | none => Effect.raise (.dataError
      ("invalid input syntax for type uuid: \"" ++ searchId ++ "\""))

end Bodies

/-! ## What `add_watch` does -/

section AddWatch

variable {settings : Settings} {tenantId userId : String}

theorem watchRoom_snd (offerId : String) (db : Database) :
    (watchRoom settings offerId db).2 = db := by
  rw [watchRoom, Effect.read_bind]
  split
  · rfl
  · rw [Effect.read_bind]
    split <;> rfl

/-- A watched item needs no room. -/
theorem watchRoom_of_watched {offerId : String} {db : Database}
    (hwatched : isWatched settings offerId db = true) :
    watchRoom settings offerId db = (.ok (), db) := by
  rw [watchRoom, Effect.read_bind, hwatched]
  rfl

/-- Of an offer that its licence lets it store, `add_watch` makes or refreshes a watch once
there is room and the target price passes the check. -/
theorem addWatch_eq (h : settings.Scopes tenantId userId) (now : ℚ) {offerId : String}
    {targetPrice : Option ℚ} {offer : Offer} {db : Database}
    (hoffer : db.offers.get? ⟨tenantId, offerId⟩ = some offer)
    (hstore : mayStore offer.source = true)
    (hroom : watchRoom settings offerId db = (.ok (), db)) :
    addWatch settings now userId tenantId offerId targetPrice db =
      match positive "watchlist_target_price_check" targetPrice with
      | .error e => (.error e, db)
      | .ok () =>
          let left := rewatched (watchOf tenantId targetPrice offer now)
            (db.watchlist.get? ⟨userId, offerId⟩)
          (.ok (watchCols (⟨userId, offerId⟩, left)),
            { db with watchlist := db.watchlist.set ⟨userId, offerId⟩ left }) := by
  have hwrite := h.upsertWatch_eq offerId (watchOf tenantId targetPrice offer now) db
  rw [addWatch, Effect.read_bind, h.selectOffer_eq, hoffer]
  simp only [hstore, Bool.not_true, Bool.false_eq_true, if_false]
  rw [Effect.bind_of_ok hroom]
  cases hcheck : positive "watchlist_target_price_check" targetPrice with
  | error e =>
      rw [show (watchOf tenantId targetPrice offer now).targetPrice = targetPrice from rfl,
        hcheck] at hwrite
      exact Effect.bind_of_error (Effect.attempt_of_error hwrite)
  | ok =>
      rw [show (watchOf tenantId targetPrice offer now).targetPrice = targetPrice from rfl,
        hcheck] at hwrite
      exact Effect.bind_of_ok (Effect.attempt_of_ok hwrite)

/-- `add_watch` raises, or writes and returns a watch of the tenant's offer, which its
licence lets it store. -/
theorem addWatch_cases (h : settings.Scopes tenantId userId) (now : ℚ) (offerId : String)
    (targetPrice : Option ℚ) (db : Database) :
    (∃ e, addWatch settings now userId tenantId offerId targetPrice db = (.error e, db)) ∨
      ∃ offer left, db.offers.get? ⟨tenantId, offerId⟩ = some offer ∧
        mayStore offer.source = true ∧
        positive "watchlist_target_price_check" targetPrice = .ok () ∧
        left = rewatched (watchOf tenantId targetPrice offer now)
          (db.watchlist.get? ⟨userId, offerId⟩) ∧
        addWatch settings now userId tenantId offerId targetPrice db =
          (.ok (watchCols (⟨userId, offerId⟩, left)),
            { db with watchlist := db.watchlist.set ⟨userId, offerId⟩ left }) := by
  cases hoffer : db.offers.get? ⟨tenantId, offerId⟩ with
  | none =>
      rw [addWatch, Effect.read_bind, h.selectOffer_eq, hoffer]
      exact Or.inl ⟨_, rfl⟩
  | some offer =>
      by_cases hstore : mayStore offer.source = true
      · have hkept := @watchRoom_snd settings offerId db
        cases hroom : watchRoom settings offerId db with
        | mk result after =>
            rw [hroom] at hkept
            subst hkept
            cases result with
            | error e =>
                rw [addWatch, Effect.read_bind, h.selectOffer_eq, hoffer]
                simp only [hstore, Bool.not_true, Bool.false_eq_true, if_false]
                rw [Effect.bind_of_error hroom]
                exact Or.inl ⟨e, rfl⟩
            | ok =>
                rw [addWatch_eq h now hoffer hstore hroom]
                cases hcheck : positive "watchlist_target_price_check" targetPrice with
                | error e => exact Or.inl ⟨e, rfl⟩
                | ok => exact Or.inr ⟨offer, _, rfl, hstore, rfl, rfl, rfl⟩
      · rw [addWatch, Effect.read_bind, h.selectOffer_eq, hoffer]
        simp only [Bool.eq_false_of_not_eq_true hstore, Bool.not_false, if_true]
        exact Or.inl ⟨_, rfl⟩

end AddWatch

/-! ## What the bodies keep -/

section Maintains

variable {settings : Settings} {P : Database → Prop}

theorem maintains_watchRoom (offerId : String) :
    Effect.Maintains P (watchRoom settings offerId) := by
  refine (Effect.maintains_read _).bind fun watched => ?_
  split
  · exact Effect.maintains_pure _
  refine (Effect.maintains_read _).bind fun n => ?_
  split
  · exact Effect.maintains_raise _
  · exact Effect.maintains_pure _

/-- `add_watch` keeps what its `INSERT` keeps. -/
theorem maintains_addWatch {now : ℚ} {userId tenantId offerId : String} {targetPrice : Option ℚ}
    (h : ∀ row, Effect.Maintains P (Effect.attempt (upsertWatch settings ⟨userId, offerId⟩ row))) :
    Effect.Maintains P (addWatch settings now userId tenantId offerId targetPrice) := by
  refine (Effect.maintains_read _).bind fun offer => ?_
  cases offer with
  | none => exact Effect.maintains_raise _
  | some offer =>
      simp only
      split
      · exact Effect.maintains_raise _
      · exact (maintains_watchRoom offerId).bind fun _ =>
          (h _).bind fun _ => Effect.maintains_pure _

/-- `add_saved_search` keeps what its `INSERT` keeps. -/
theorem maintains_addSavedSearch {now : ℚ} {userId query : String} {maxPrice : Option ℚ}
    {id : Uuid}
    (h : Effect.Maintains P
      (Effect.attempt (insertSearch settings ⟨id, userId, query, maxPrice, now⟩))) :
    Effect.Maintains P (addSavedSearch settings now userId query maxPrice id) := by
  refine (Effect.maintains_read _).bind fun n => ?_
  split
  · exact Effect.maintains_raise _
  · exact h.bind fun _ => Effect.maintains_pure _

/-- `remove_saved_search` keeps what its `DELETE` keeps. -/
theorem maintains_removeSavedSearch {postgres : Postgres} {searchId : String}
    (h : ∀ id, Effect.Maintains P
      (Effect.write (deleteSearch settings id) : Txn ℕ)) :
    Effect.Maintains P (removeSavedSearch settings postgres searchId) := by
  rw [removeSavedSearch]
  cases postgres.uuid searchId with
  | none => exact Effect.maintains_raise _
  | some id => exact h id

end Maintains

end DealFinder.Store
