/-
# The retention purge

One transaction of the job role deletes from both tables the rows whose source may
not be stored, at any age, and the rows older than their store's cut-off.
-/

import DealFinder.Shop.Licensing
import DealFinder.Store.Database

namespace DealFinder.Store

open DealFinder.Math DealFinder.Shop

/-- `RETENTION_MARGIN_S`. -/
def retentionMarginS : ℚ := 25 * 3600

/-- `split_part` with a delimiter of one character. -/
def splitPart (text : String) (delimiter : Char) (n : ℕ) : String :=
  String.ofList ((text.toList.splitOn delimiter).getD (n - 1) [])

/-- The policies whose rows may be stored. -/
def storable : List SourcePolicy := policies.values.filter SourcePolicy.store

/-- The parameter `keys`. -/
def purgeKeys : List String := storable.map SourcePolicy.key

/-- The parameter `cutoffs`. -/
def purgeCutoffs (now marginS : ℚ) : List ℚ :=
  storable.map fun policy => now - (policy.maxAgeS - marginS)

section Purge

variable (now marginS : ℚ)

/-- The condition of `_PURGE`. A missing source equals no key. -/
def expired (source : Option String) (stamp : ℚ) : Bool :=
  let part := source.map fun source => splitPart source ':' 1
  !(purgeKeys.any fun key => some key = part) ||
    (purgeKeys.zip (purgeCutoffs now marginS)).any fun p => some p.1 = part && stamp < p.2

/-- `_PURGE` on `offers`. -/
def purgeOffers (settings : Settings) (db : Database) : ℕ × Database :=
  let deleted := (offersPolicy settings).deleteFrom
    (fun _ offer => expired now marginS (some offer.source) offer.fetchedAt) db.offers
  (deleted.1, { db with offers := deleted.2 })

/-- `_PURGE` on `watchlist`. -/
def purgeWatchlist (settings : Settings) (db : Database) : ℕ × Database :=
  let deleted := (watchlistPolicy settings).deleteFrom
    (fun _ watch => expired now marginS watch.source watch.lastCheckedAt) db.watchlist
  (deleted.1, { db with watchlist := deleted.2 })

/-- `purge_expired`: the number of rows deleted from each table. -/
def purgeExpired (settings : Settings) : Txn (ℕ × ℕ) := do
  let offers ← Effect.write (purgeOffers now marginS settings)
  let watchlist ← Effect.write (purgeWatchlist now marginS settings)
  pure (offers, watchlist)

/-- A job deletes every expired row of both tables. -/
theorem purgeExpired_eq {settings : Settings} (hjob : settings.role = .job) (db : Database) :
    purgeExpired now marginS settings db =
      (.ok ((db.offers.filter fun _ offer =>
          expired now marginS (some offer.source) offer.fetchedAt).size,
        (db.watchlist.filter fun _ watch =>
          expired now marginS watch.source watch.lastCheckedAt).size),
        { db with
          offers := db.offers.filter fun _ offer =>
            !expired now marginS (some offer.source) offer.fetchedAt
          watchlist := db.watchlist.filter fun _ watch =>
            !expired now marginS watch.source watch.lastCheckedAt }) := by
  have hoffers : (offersPolicy settings).sees = fun _ => true := by
    funext row
    simp [offersPolicy, Policy.same, hjob]
  have hwatchlist : (watchlistPolicy settings).sees = fun _ => true := by
    funext row
    simp [watchlistPolicy, Policy.same, hjob]
  have hrun : purgeExpired now marginS settings db =
      let offers := purgeOffers now marginS settings db
      let watchlist := purgeWatchlist now marginS settings offers.2
      (.ok (offers.1, watchlist.1), watchlist.2) := rfl
  rw [hrun]
  simp only [purgeOffers, purgeWatchlist, Policy.deleteFrom, Policy.gone, hoffers, hwatchlist,
    Bool.true_and]

end Purge

end DealFinder.Store
