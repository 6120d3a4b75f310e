/-
# The database

The three tables of the schema, their row security policies, and the statements that
the store modules execute. A statement sees and leaves rows as the policies allow
under the settings of its transaction.

Prices and timestamps are exact rationals, the latter in seconds. A saved search has a
generated id, which is taken to be new; ids and the times at which rows are made come
with the request.
-/

import DealFinder.Math.Noninterference
import DealFinder.Math.RowSecurity
import Mathlib.Data.List.Sort
import Mathlib.Algebra.Order.Ring.Rat
import Mathlib.Order.WithBot

namespace DealFinder.Store

open DealFinder.Math

/-! ## Tables -/

/-- The primary key of `offers`. -/
structure OfferKey where
  tenantId : String
  id : String
  deriving DecidableEq

/-- The offer is a tenant's. -/
def OfferKey.ownedBy (tenantId : String) (key : OfferKey) : Bool := key.tenantId = tenantId

/-- A row of `offers`, without its key. -/
structure Offer where
  title : String
  brand : Option String
  source : String
  price : ℚ
  currency : String
  url : Option String
  imageUrl : Option String
  embedding : Option (List ℚ)
  sku : Option String
  regularPrice : Option ℚ
  fetchedAt : ℚ
  deriving DecidableEq

/-- The primary key of `watchlist`. -/
structure WatchKey where
  userId : String
  offerId : String
  deriving DecidableEq

/-- The watch is a user's. -/
def WatchKey.ownedBy (userId : String) (key : WatchKey) : Bool := key.userId = userId

/-- A row of `watchlist`, without its key. -/
structure Watch where
  tenantId : String
  title : String
  url : Option String
  imageUrl : Option String
  source : Option String
  targetPrice : Option ℚ
  lastPrice : ℚ
  lastCheckedAt : ℚ
  createdAt : ℚ
  deriving DecidableEq

/-- A uuid. -/
abbrev Uuid := BitVec 128

/-- A row of `saved_searches`. -/
structure SavedSearch where
  id : Uuid
  userId : String
  query : String
  maxPrice : Option ℚ
  createdAt : ℚ
  deriving DecidableEq

/-- The search is a user's. -/
def SavedSearch.ownedBy (userId : String) (row : SavedSearch) : Bool := row.userId = userId

/-- The tables of the schema. -/
structure Database where
  offers : Dict OfferKey Offer
  watchlist : Dict WatchKey Watch
  savedSearches : List SavedSearch
  deriving DecidableEq

/-- The tables after the migrations. -/
def Database.empty : Database := ⟨.empty, .empty, []⟩

/-- The exceptions of a transaction. -/
inductive Error
  | lookupError (offerId : String)
  | limitExceeded
  | checkViolation (constraint : String)
  | rowSecurity (table : String)
  | dataError (text : String)
  deriving DecidableEq

/-- The body of a transaction. -/
abbrev Txn := Effect Database Error

/-- Functions of Postgres. -/
structure Postgres where
  /-- A decimal numeral as a single-precision number. -/
  single : ℚ → ℚ
  /-- `<=>`, where `⊤` is `NaN`, which sorts last. -/
  distance : List ℚ → List ℚ → WithTop ℚ
  /-- The uuid that a text spells. -/
  uuid : String → Option Uuid

/-! ## Policies -/

/-- The roles of a transaction. -/
inductive Role
  | login
  | app
  | job
  deriving DecidableEq

/-- The settings of a connection that the policies read. A setting may be unset. -/
structure Settings where
  role : Role
  tenantId : Option String
  userId : Option String
  deriving DecidableEq

section Policies

variable (settings : Settings)

/-- `tenant_isolation`, or `job_all`. -/
def offersPolicy : Policy (OfferKey × Offer) :=
  .same fun row => settings.tenantId = some row.1.tenantId || settings.role = .job

/-- `watchlist_owner`, or `job_all`. -/
def watchlistPolicy : Policy (WatchKey × Watch) :=
  .same fun row => settings.userId = some row.1.userId || settings.role = .job

/-- `saved_search_owner`, or `job_all`. -/
def savedSearchesPolicy : Policy SavedSearch :=
  .same fun row => settings.userId = some row.userId || settings.role = .job

end Policies

/-! ## Statements -/

/-- A `CHECK` of a positive finite price. -/
def positive (constraint : String) (price : Option ℚ) : Except Error Unit :=
  match price with
  | some price => if 0 < price then .ok () else .error (.checkViolation constraint)
  | none => .ok ()

/-- What a write under a policy leaves. -/
def orRowSecurity {α : Type} (table : String) (outcome : Option α) : Except Error α :=
  match outcome with
  | some a => .ok a
  | none => .error (.rowSecurity table)

/-- Newest first. -/
def newestFirst {ρ : Type} (createdAt : ρ → ℚ) (rows : List ρ) : List ρ :=
  rows.insertionSort fun first second => createdAt second ≤ createdAt first

section Statements

variable (settings : Settings)

/-- `SELECT ... FROM offers WHERE id = %s`. -/
def selectOffer (offerId : String) (db : Database) : Option Offer :=
  (((offersPolicy settings).seen db.offers).entries.find? fun row => row.1.id = offerId).map
    Prod.snd

/-- `SELECT 1 FROM watchlist WHERE offer_id = %s`. -/
def isWatched (offerId : String) (db : Database) : Bool :=
  ((watchlistPolicy settings).seen db.watchlist).entries.any fun row => row.1.offerId = offerId

/-- `SELECT count(*) FROM watchlist`. -/
def countWatches (db : Database) : ℕ := ((watchlistPolicy settings).seen db.watchlist).size

/-- `DO UPDATE SET` of a watch: all but the tenant and the time it was made. -/
def Watch.refresh (old excluded : Watch) : Watch :=
  { excluded with tenantId := old.tenantId, createdAt := old.createdAt }

/-- The row that a watch's `INSERT` leaves. -/
def rewatched (row : Watch) (old : Option Watch) : Watch :=
  Policy.left row (fun old => old.refresh row) old

/-- `INSERT INTO watchlist ... ON CONFLICT (user_id, offer_id) DO UPDATE`. -/
def upsertWatch (key : WatchKey) (row : Watch) (db : Database) :
    Except Error ((WatchKey × Watch) × Database) := do
  let (left, watchlist) ← orRowSecurity "watchlist"
    ((watchlistPolicy settings).upsert key row (fun old => old.refresh row) db.watchlist)
  positive "watchlist_target_price_check" row.targetPrice
  pure ((key, left), { db with watchlist })

/-- `SELECT ... FROM watchlist ORDER BY created_at DESC`. -/
def selectWatches (db : Database) : List (WatchKey × Watch) :=
  newestFirst (fun row => row.2.createdAt) ((watchlistPolicy settings).seen db.watchlist).entries

/-- `DELETE FROM watchlist WHERE offer_id = %s`. -/
def deleteWatch (offerId : String) (db : Database) : ℕ × Database :=
  let deleted :=
    (watchlistPolicy settings).deleteFrom (fun key _ => key.offerId = offerId) db.watchlist
  (deleted.1, { db with watchlist := deleted.2 })

/-- `SELECT count(*) FROM saved_searches`. -/
def countSearches (db : Database) : ℕ :=
  ((savedSearchesPolicy settings).select db.savedSearches).length

/-- The `CHECK`s of `saved_searches`. -/
def checkSearch (row : SavedSearch) : Except Error Unit := do
  if row.query.length = 0 ∨ 200 < row.query.length then
    throw (.checkViolation "saved_searches_query_check")
  positive "saved_searches_max_price_check" row.maxPrice

/-- `INSERT INTO saved_searches`. -/
def insertSearch (row : SavedSearch) (db : Database) : Except Error (SavedSearch × Database) := do
  let savedSearches ← orRowSecurity "saved_searches"
    ((savedSearchesPolicy settings).insert row db.savedSearches)
  checkSearch row
  pure (row, { db with savedSearches })

/-- `SELECT ... FROM saved_searches ORDER BY created_at DESC`. -/
def selectSearches (db : Database) : List SavedSearch :=
  newestFirst SavedSearch.createdAt ((savedSearchesPolicy settings).select db.savedSearches)

/-- `DELETE FROM saved_searches WHERE id = %s::uuid`. -/
def deleteSearch (id : Uuid) (db : Database) : ℕ × Database :=
  let deleted := (savedSearchesPolicy settings).delete (fun row => row.id = id) db.savedSearches
  (deleted.1, { db with savedSearches := deleted.2 })

end Statements

/-! ## What the app role may do -/

/-- The settings of a request of a user for a tenant. -/
structure Settings.Scopes (settings : Settings) (tenantId userId : String) : Prop where
  role : settings.role = .app
  tenantId : settings.tenantId = some tenantId
  userId : settings.userId = some userId

namespace Settings.Scopes

variable {settings : Settings} {tenantId userId : String}

theorem owns_offers (h : settings.Scopes tenantId userId) :
    (offersPolicy settings).Owns (OfferKey.ownedBy tenantId) := by
  intro key row
  simp [offersPolicy, Policy.same, OfferKey.ownedBy, h.role, h.tenantId, eq_comm]

theorem owns_watchlist (h : settings.Scopes tenantId userId) :
    (watchlistPolicy settings).Owns (WatchKey.ownedBy userId) := by
  intro key row
  simp [watchlistPolicy, Policy.same, WatchKey.ownedBy, h.role, h.userId, eq_comm]

theorem savedSearchesPolicy_eq (h : settings.Scopes tenantId userId) :
    savedSearchesPolicy settings = .same (SavedSearch.ownedBy userId) := by
  have hrows : (fun row : SavedSearch => settings.userId = some row.userId ||
      settings.role = .job) = SavedSearch.ownedBy userId := by
    funext row
    simp [SavedSearch.ownedBy, h.role, h.userId, eq_comm]
  exact congrArg Policy.same hrows

/-- A query for an offer finds the offer of the tenant. -/
theorem selectOffer_eq (h : settings.Scopes tenantId userId) (offerId : String) (db : Database) :
    selectOffer settings offerId db = db.offers.get? ⟨tenantId, offerId⟩ := by
  rw [selectOffer, h.owns_offers.seen_eq, Dict.get?, Dict.entries_filter, List.find?_filter]
  congr 2
  funext row
  obtain ⟨⟨tenant, id⟩, offer⟩ := row
  simp [OfferKey.ownedBy, Bool.decide_and]

/-- A user watches an item when there is a row of theirs. -/
theorem isWatched_eq (h : settings.Scopes tenantId userId) (offerId : String) (db : Database) :
    isWatched settings offerId db = decide (⟨userId, offerId⟩ ∈ db.watchlist) := by
  rw [isWatched, h.owns_watchlist.seen_eq, Dict.entries_filter, Bool.eq_iff_iff, List.any_eq_true,
    decide_eq_true_iff, Dict.mem_iff_exists_entry]
  constructor
  · intro ⟨⟨⟨user, offer⟩, row⟩, hmem, hoffer⟩
    obtain ⟨hentry, huser⟩ := List.mem_filter.1 hmem
    obtain rfl : user = userId := of_decide_eq_true huser
    obtain rfl : offer = offerId := of_decide_eq_true hoffer
    exact ⟨row, hentry⟩
  · intro ⟨row, hentry⟩
    exact ⟨_, List.mem_filter.2 ⟨hentry, decide_eq_true rfl⟩, decide_eq_true rfl⟩

theorem countWatches_eq (h : settings.Scopes tenantId userId) (db : Database) :
    countWatches settings db = (db.watchlist.filter fun key _ => key.ownedBy userId).size := by
  rw [countWatches, h.owns_watchlist.seen_eq]

/-- A user's watch is inserted or refreshed once its target price passes the check. -/
theorem upsertWatch_eq (h : settings.Scopes tenantId userId) (offerId : String) (row : Watch)
    (db : Database) :
    upsertWatch settings ⟨userId, offerId⟩ row db =
      (positive "watchlist_target_price_check" row.targetPrice).map fun _ =>
        let left := Policy.left row (fun old => old.refresh row)
          (db.watchlist.get? ⟨userId, offerId⟩)
        ((⟨userId, offerId⟩, left),
          { db with watchlist := db.watchlist.set ⟨userId, offerId⟩ left }) := by
  rw [upsertWatch, h.owns_watchlist.upsert_of_pos (decide_eq_true rfl)]
  cases positive "watchlist_target_price_check" row.targetPrice <;> rfl

/-- What a watch's `INSERT` that succeeds has done. -/
theorem upsertWatch_ok (h : settings.Scopes tenantId userId) {offerId : String} {row : Watch}
    {left : WatchKey × Watch} {db after : Database}
    (hrun : upsertWatch settings ⟨userId, offerId⟩ row db = .ok (left, after)) :
    positive "watchlist_target_price_check" row.targetPrice = .ok () ∧
      left = (⟨userId, offerId⟩, rewatched row (db.watchlist.get? ⟨userId, offerId⟩)) ∧
      after = { db with watchlist := db.watchlist.set left.1 left.2 } := by
  rw [h.upsertWatch_eq] at hrun
  cases hcheck : positive "watchlist_target_price_check" row.targetPrice with
  | error e =>
      rw [hcheck] at hrun
      cases hrun
  | ok =>
      rw [hcheck] at hrun
      cases hrun
      exact ⟨rfl, rfl, rfl⟩

/-- A removal erases the user's watch of the item. -/
theorem deleteWatch_eq (h : settings.Scopes tenantId userId) (offerId : String) (db : Database) :
    (deleteWatch settings offerId db).2 =
      { db with watchlist := db.watchlist.eraseAll [⟨userId, offerId⟩] } := by
  simp only [deleteWatch, Policy.deleteFrom, Policy.gone, (h.owns_watchlist _ _).1, Dict.eraseAll]
  congr 2
  funext key _
  obtain ⟨user, offer⟩ := key
  simp [WatchKey.ownedBy]

/-- A saved search is inserted once it passes the checks. -/
theorem insertSearch_eq (h : settings.Scopes tenantId userId) {row : SavedSearch}
    (hrow : row.userId = userId) (db : Database) :
    insertSearch settings row db =
      (checkSearch row).map fun _ =>
        (row, { db with savedSearches := db.savedSearches ++ [row] }) := by
  have hinsert : (savedSearchesPolicy settings).insert row db.savedSearches =
      some (db.savedSearches ++ [row]) := by
    rw [h.savedSearchesPolicy_eq]
    exact if_pos (decide_eq_true hrow)
  rw [insertSearch, hinsert]
  cases checkSearch row <;> rfl

/-- What a search's `INSERT` that succeeds has done. -/
theorem insertSearch_ok (h : settings.Scopes tenantId userId) {row left : SavedSearch}
    (hrow : row.userId = userId) {db after : Database}
    (hrun : insertSearch settings row db = .ok (left, after)) :
    after = { db with savedSearches := db.savedSearches ++ [row] } := by
  rw [h.insertSearch_eq hrow] at hrun
  cases hcheck : checkSearch row with
  | error e =>
      rw [hcheck] at hrun
      cases hrun
  | ok =>
      rw [hcheck] at hrun
      cases hrun
      rfl

theorem countSearches_eq (h : settings.Scopes tenantId userId) (db : Database) :
    countSearches settings db =
      (db.savedSearches.filter (SavedSearch.ownedBy userId)).length := by
  rw [countSearches, h.savedSearchesPolicy_eq]
  rfl

end Settings.Scopes

end DealFinder.Store
