/-
# The last commit wins

`upsert` refreshes a row with whatever it brings: it compares no stamps. So the row of
an offer has the title, price and stamp of the write that committed last, whichever
was fetched last (`last_commit_wins`), and a watch copies these.
-/

import DealFinder.Store.Writes

namespace DealFinder.Store

open DealFinder.Math DealFinder.Shop

/-- The two rows agree on the title, the price and the stamp. -/
structure SameNews (first second : Offer) : Prop where
  title : first.title = second.title
  price : first.price = second.price
  fetchedAt : first.fetchedAt = second.fetchedAt

/-- An offer written later has a greater stamp than every other one written. -/
def Freshest (offers : List Offer) (offer : Offer) : Prop :=
  offer ∈ offers ∧ ∀ other ∈ offers, other ≠ offer → other.fetchedAt < offer.fetchedAt

section LastCommit

variable {postgres : Postgres} {pool : Pool} {requests : List Request} {key : OfferKey}

theorem sameNews_refreshed (offer : Offer) (old : Option Offer) :
    SameNews (refreshed offer old) offer := by
  cases old <;> exact ⟨rfl, rfl, rfl⟩

/-- The stored row has the news of the write that committed last. -/
theorem sameNews_last (hpurge : ∀ request ∈ requests, request.op ≠ .purgeExpired) {last : Offer}
    (hlast : (written postgres pool requests key).getLast? = some last) :
    ∃ offer, ((machine postgres).run pool requests).db.offers.get? key = some offer ∧
      SameNews offer last := by
  obtain ⟨earlier, hwritten⟩ := List.getLast?_eq_some_iff.1 hlast
  rw [get?_run requests hpurge, hwritten, rewrite_concat]
  exact ⟨_, rfl, sameNews_refreshed last _⟩

/-- The stored news is that of the freshest write exactly when it committed last. -/
theorem sameNews_freshest_iff {offers : List Offer} {offer last fresh : Offer}
    (hlast : last ∈ offers) (hoffer : SameNews offer last) (hfresh : Freshest offers fresh) :
    SameNews offer fresh ↔ last = fresh := by
  constructor
  · intro hnews
    by_contra hne
    have hlt := hfresh.2 last hlast hne
    rw [← hoffer.fetchedAt, hnews.fetchedAt] at hlt
    exact lt_irrefl _ hlt
  · exact fun heq => heq ▸ hoffer

/-- A watch that is answered has the news of the stored offer. -/
theorem watched_news {request : Request} {userId : String} {targetPrice : Option ℚ} {row : Watched}
    (hop : request.op = .addWatch userId key.tenantId key.id targetPrice)
    (hanswer : (pool.step postgres request).1 = .ok (.watched row)) :
    ∃ offer, pool.db.offers.get? key = some offer ∧ row.title = offer.title ∧
      row.lastPrice = offer.price ∧ row.lastCheckedAt = offer.fetchedAt := by
  rw [Pool.step] at hanswer
  cases hrun : pool.transaction postgres request with
  | mk result db =>
      rw [hrun] at hanswer
      cases result with
      | error e => cases hanswer
      | ok answer =>
          obtain rfl : answer = .watched row := Except.ok.inj hanswer
          rw [Pool.transaction, hop] at hrun
          obtain ⟨found, middle, hbody, hreturn⟩ := Effect.exists_of_bind_ok hrun
          cases hreturn
          rcases addWatch_cases (scopes_user userId key.tenantId (pool.session request.conn))
              request.time key.id targetPrice pool.db with
            ⟨e, hraised⟩ | ⟨offer, left, hoffer, -, -, rfl, hwritten⟩
          · cases hraised.symm.trans hbody
          · cases hwritten.symm.trans hbody
            refine ⟨offer, hoffer, ?_⟩
            cases pool.db.watchlist.get? ⟨userId, key.id⟩ <;> exact ⟨rfl, rfl, rfl⟩

end LastCommit

/-- **The last commit wins.** After every run that writes an offer and purges nothing, the
row of the offer has the title, the price and the stamp of the write that committed last,
so those of the freshest write exactly when that one committed last. A watch added then
copies them. -/
theorem last_commit_wins (postgres : Postgres) (pool : Pool) (requests : List Request)
    (key : OfferKey) (hpurge : ∀ request ∈ requests, request.op ≠ .purgeExpired) {last : Offer}
    (hlast : (written postgres pool requests key).getLast? = some last) :
    (∃ offer, ((machine postgres).run pool requests).db.offers.get? key = some offer ∧
      SameNews offer last ∧
      ∀ fresh, Freshest (written postgres pool requests key) fresh →
        (SameNews offer fresh ↔ last = fresh)) ∧
    ∀ (conn : ℕ) (time : ℚ) (generated : Uuid) (userId : String) (targetPrice : Option ℚ) (row),
      (((machine postgres).run pool requests).step postgres
        ⟨conn, time, generated, .addWatch userId key.tenantId key.id targetPrice⟩).1 =
          .ok (.watched row) →
        row.title = last.title ∧ row.lastPrice = last.price ∧
          row.lastCheckedAt = last.fetchedAt := by
  obtain ⟨offer, hoffer, hnews⟩ := sameNews_last hpurge hlast
  refine ⟨⟨offer, hoffer, hnews, fun fresh hfresh =>
    sameNews_freshest_iff (List.mem_of_getLast? hlast) hnews hfresh⟩, ?_⟩
  intro conn time generated userId targetPrice row hanswer
  obtain ⟨found, hfound, htitle, hprice, hstamp⟩ := watched_news rfl hanswer
  obtain rfl : offer = found := Option.some.inj (hoffer.symm.trans hfound)
  exact ⟨htitle.trans hnews.title, hprice.trans hnews.price, hstamp.trans hnews.fetchedAt⟩

/-- A price of a radio, found at a time. -/
def radioAt (price fetchedAt : ℚ) : Row :=
  ⟨"radio", "a radio", none, "BestBuy", price, none, none, none, none, none, some fetchedAt⟩

/-- Two searches remember the radio, and the slower one, which asked first, commits last. -/
def slowSearch : List Request :=
  [⟨0, 30, 0, .upsert [radioAt 40 20] none "public"⟩,
    ⟨1, 40, 0, .upsert [radioAt 45 10] none "public"⟩]

/-- After a slow search the radio has the price that it brought. -/
theorem last_commit_wins_slowSearch :
    ∃ offer, ((machine plainPostgres).run emptyPool slowSearch).db.offers.get?
      ⟨"public", "radio"⟩ = some offer ∧ offer.price = 45 ∧ offer.fetchedAt = 10 := by
  have hlast : (written plainPostgres emptyPool slowSearch ⟨"public", "radio"⟩).getLast? =
      some (proposed plainPostgres 40 (radioAt 45 10) none) := by decide +kernel
  have hpurge : ∀ request ∈ slowSearch, request.op ≠ .purgeExpired := by
    intro request hrequest
    rcases List.mem_pair.1 hrequest with rfl | rfl <;> exact Op.noConfusion
  obtain ⟨⟨offer, hoffer, hnews, -⟩, -⟩ := last_commit_wins plainPostgres emptyPool slowSearch
    ⟨"public", "radio"⟩ hpurge hlast
  exact ⟨offer, hoffer, hnews.price, hnews.fetchedAt⟩

/-- A stale price replaces a fresh one. -/
theorem stale_price_replaces :
    ¬ ∀ (postgres : Postgres) (pool : Pool) (requests : List Request) (key : OfferKey)
      (fresh : Offer), (∀ request ∈ requests, request.op ≠ .purgeExpired) →
        Freshest (written postgres pool requests key) fresh →
          ∃ offer, ((machine postgres).run pool requests).db.offers.get? key = some offer ∧
            SameNews offer fresh := by
  intro hall
  have hwritten : written plainPostgres emptyPool slowSearch ⟨"public", "radio"⟩ =
      [proposed plainPostgres 30 (radioAt 40 20) none,
        proposed plainPostgres 40 (radioAt 45 10) none] := by decide +kernel
  have hpurge : ∀ request ∈ slowSearch, request.op ≠ .purgeExpired := by
    intro request hrequest
    rcases List.mem_pair.1 hrequest with rfl | rfl <;> exact Op.noConfusion
  have hfresh : Freshest (written plainPostgres emptyPool slowSearch ⟨"public", "radio"⟩)
      (proposed plainPostgres 30 (radioAt 40 20) none) := by
    rw [hwritten]
    refine ⟨List.mem_cons_self, fun other hother hne => ?_⟩
    rcases List.mem_pair.1 hother with rfl | rfl
    · exact absurd rfl hne
    · decide +kernel
  obtain ⟨offer, hoffer, hnews⟩ := hall _ _ _ _ _ hpurge hfresh
  have hstored : ((machine plainPostgres).run emptyPool slowSearch).db.offers.get?
      ⟨"public", "radio"⟩ = some (proposed plainPostgres 40 (radioAt 45 10) none) := by
    decide +kernel
  obtain rfl := Option.some.inj (hstored.symm.trans hoffer)
  exact absurd hnews.price (by decide +kernel)

end DealFinder.Store
