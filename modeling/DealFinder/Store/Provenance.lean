/-
# Where a watch comes from

`add_watch` copies a row of the catalog, and a second `add_watch` of the item copies
again, all but the tenant. While nobody watches one item under two tenants, every row of
the watchlist was copied from an offer of its own tenant (`traced`). A user who does is
left with the first tenant's name over the second one's price (`tenant_left_behind`).
-/

import DealFinder.Store.Changes

namespace DealFinder.Store

open DealFinder.Math DealFinder.Shop

/-- The watch says what the offer says. -/
structure Watch.CopiedFrom (watch : Watch) (offer : Offer) : Prop where
  title : watch.title = offer.title
  url : watch.url = offer.url
  imageUrl : watch.imageUrl = offer.imageUrl
  source : watch.source = some offer.source
  lastPrice : watch.lastPrice = offer.price
  lastCheckedAt : watch.lastCheckedAt = offer.fetchedAt

/-- The `add_watch` that an operation is may copy an offer: it is there, its licence lets it
be stored, and the target price passes the check. -/
structure Copies (db : Database) (op : Op) (key : WatchKey) (tenantId : String)
    (targetPrice : Option ℚ) (offer : Offer) : Prop where
  adds : op = .addWatch key.userId tenantId key.offerId targetPrice
  found : db.offers.get? ⟨tenantId, key.offerId⟩ = some offer
  storable : mayStore offer.source = true
  checked : positive "watchlist_target_price_check" targetPrice = .ok ()

/-- An `add_watch` that may copy finds no row of the item from another tenant. -/
def SameTenant (pool : Pool) (request : Request) : Prop :=
  ∀ key tenantId targetPrice offer watch,
    Copies pool.db request.op key tenantId targetPrice offer →
      pool.db.watchlist.get? key = some watch → watch.tenantId = tenantId

section Traced

variable (postgres : Postgres) (pool : Pool)

/-- The row was left by an `add_watch` of its user for its tenant, which copied it from the
row of the catalog under that tenant. -/
def Traced (requests : List Request) (key : WatchKey) (watch : Watch) : Prop :=
  ∃ past request later targetPrice offer, requests = past ++ request :: later ∧
    request.op = .addWatch key.userId watch.tenantId key.offerId targetPrice ∧
    ((machine postgres).run pool past).db.offers.get? ⟨watch.tenantId, key.offerId⟩ =
      some offer ∧
    ((machine postgres).run pool (past ++ [request])).db.watchlist.get? key = some watch ∧
    watch.CopiedFrom offer

end Traced

section Step

variable {postgres : Postgres} {pool : Pool} {request : Request} {past : List Request}
variable {key : WatchKey} {watch : Watch}

theorem copiedFrom_rewatched (tenantId : String) (targetPrice : Option ℚ) (offer : Offer)
    (now : ℚ) (old : Option Watch) :
    (rewatched (watchOf tenantId targetPrice offer now) old).CopiedFrom offer := by
  cases old <;> exact ⟨rfl, rfl, rfl, rfl, rfl, rfl⟩

/-- A watch stays traced. -/
theorem Traced.concat (h : Traced postgres pool past key watch) (request : Request) :
    Traced postgres pool (past ++ [request]) key watch := by
  obtain ⟨first, added, later, targetPrice, offer, rfl, h⟩ := h
  exact ⟨first, added, later ++ [request], targetPrice, offer, by simp, h⟩

/-- An `add_watch` leaves everything, or writes. -/
theorem step_addWatch {tenantId : String} {targetPrice : Option ℚ}
    (hop : request.op = .addWatch key.userId tenantId key.offerId targetPrice) :
    (pool.step postgres request).2.db = pool.db ∨
      ∃ offer, Copies pool.db request.op key tenantId targetPrice offer ∧
        (pool.step postgres request).2.db =
          withWatch pool.db key (watchOf tenantId targetPrice offer request.time) := by
  have hscopes := scopes_user key.userId tenantId (pool.session request.conn)
  rw [Pool.step, Pool.transaction, hop]
  rcases addWatch_cases hscopes request.time key.offerId targetPrice pool.db with
    ⟨e, hraised⟩ | ⟨offer, left, hoffer, hstore, hpositive, rfl, hwritten⟩
  · rw [Op.body, Op.settings, Effect.bind_of_error hraised]
    exact Or.inl rfl
  · rw [Op.body, Op.settings, Effect.bind_of_ok hwritten]
    exact Or.inr ⟨offer, ⟨rfl, hoffer, hstore, hpositive⟩, rfl⟩

/-- Nothing else makes a watch. -/
theorem watch_of_step
    (hop : ∀ userId tenantId offerId targetPrice,
      request.op ≠ .addWatch userId tenantId offerId targetPrice)
    (hwatch : (pool.step postgres request).2.db.watchlist.get? key = some watch) :
    pool.db.watchlist.get? key = some watch := by
  refine @step_of_changes postgres request
    (fun db => db.watchlist.get? key = some watch → pool.db.watchlist.get? key = some watch)
    (fun db db' hchange hdb => ?_) pool id hwatch
  cases hchange with
  | offer | searches => exact hdb
  | watch hadd => exact absurd hadd (hop _ _ _ _)
  | unwatch | purge => exact fun hleft => hdb (Dict.get?_of_filter hleft)

/-- The watches of a request that is guarded are traced when those before it are. -/
theorem traced_step (hpast : ∀ key watch,
      ((machine postgres).run pool past).db.watchlist.get? key = some watch →
        Traced postgres pool past key watch)
    (hsame : SameTenant ((machine postgres).run pool past) request)
    (hwatch : ((machine postgres).run pool (past ++ [request])).db.watchlist.get? key =
      some watch) :
    Traced postgres pool (past ++ [request]) key watch := by
  have hrun : (machine postgres).run pool (past ++ [request]) =
      (((machine postgres).run pool past).step postgres request).2 := Machine.run_concat _ _ _ _
  by_cases hadd : ∃ added tenantId targetPrice,
      request.op = .addWatch (WatchKey.userId added) tenantId added.offerId targetPrice
  · obtain ⟨added, tenantId, targetPrice, hop⟩ := hadd
    rcases step_addWatch hop with hkept | ⟨offer, hcopies, hwritten⟩
    · rw [hrun, hkept] at hwatch
      exact (hpast key watch hwatch).concat request
    · have hleft := hwatch
      rw [hrun, hwritten, withWatch, Dict.get?_set] at hleft
      split at hleft
      · next heq =>
        subst heq
        obtain rfl := Option.some.inj hleft
        -- a row that was there has the tenant of the request, and keeps it
        have htenant : (rewatched (watchOf tenantId targetPrice offer request.time)
            (((machine postgres).run pool past).db.watchlist.get? key)).tenantId = tenantId := by
          cases hold : ((machine postgres).run pool past).db.watchlist.get? key with
          | none => rfl
          | some old => exact hsame key tenantId targetPrice offer old hcopies hold
        refine ⟨past, request, [], targetPrice, offer, rfl, ?_, ?_, hwatch,
          copiedFrom_rewatched _ _ _ _ _⟩
        · rw [htenant]
          exact hop
        · rw [htenant]
          exact hcopies.found
      · exact (hpast key watch hleft).concat request
  · refine (hpast key watch (watch_of_step (fun userId tenantId offerId targetPrice hop => ?_)
      (hrun ▸ hwatch))).concat request
    exact hadd ⟨⟨userId, offerId⟩, tenantId, targetPrice, hop⟩

/-- An `add_watch` that may copy keeps the tenant of the row that it finds, whatever tenant
it copies from. -/
theorem tenant_left_behind {tenantId : String} {targetPrice : Option ℚ} {offer : Offer}
    (hcopies : Copies pool.db request.op key tenantId targetPrice offer)
    (hwatch : pool.db.watchlist.get? key = some watch) :
    ∃ left, (pool.step postgres request).2.db.watchlist.get? key = some left ∧
      left.CopiedFrom offer ∧ left.tenantId = watch.tenantId := by
  have hscopes := scopes_user key.userId tenantId (pool.session request.conn)
  have hwatched : isWatched (dbScoped (some key.userId) tenantId (pool.session request.conn))
      key.offerId pool.db = true := by
    rw [hscopes.isWatched_eq]
    exact decide_eq_true (Dict.mem_of_get?_eq_some hwatch)
  have hadded := @addWatch_eq _ _ _ hscopes request.time _ targetPrice _ _ hcopies.found
    hcopies.storable (watchRoom_of_watched hwatched)
  rw [hcopies.checked] at hadded
  rw [Pool.step, Pool.transaction, hcopies.adds, Op.body, Op.settings, Effect.bind_of_ok hadded]
  refine ⟨_, Dict.get?_set_self _ _ _, copiedFrom_rewatched _ _ _ _ _, ?_⟩
  rw [hwatch]
  rfl

end Step

/-- **Where a watch comes from.** In every run from empty tables in which no `add_watch` that
may copy finds the item watched under another tenant, every row of the watchlist is traced. -/
theorem traced (postgres : Postgres) (session : ℕ → Settings) (requests : List Request)
    (hsame : (machine postgres).Along SameTenant ⟨.empty, session⟩ requests) (key : WatchKey)
    (watch : Watch)
    (hwatch : ((machine postgres).run ⟨.empty, session⟩ requests).db.watchlist.get? key =
      some watch) :
    Traced postgres ⟨.empty, session⟩ requests key watch := by
  apply Machine.run_induction (P := fun past pool => ∀ key watch,
    pool.db.watchlist.get? key = some watch → Traced postgres ⟨.empty, session⟩ past key watch)
    _ _ requests hsame key watch hwatch
  · intro key watch hnone
    cases hnone
  · intro past request hpast hguard key watch hleft
    apply traced_step hpast hguard
    rw [Machine.run_concat]
    exact hleft

/-- A price of a lamp. -/
def lampAt (price : ℚ) : Row :=
  ⟨"lamp", "a lamp", none, "BestBuy", price, none, none, none, none, none, some 10⟩

/-- Two tenants' catalogs have the lamp at two prices, and a user watches it in one. -/
def watchedLamp : List Request :=
  [⟨0, 20, 0, .upsert [lampAt 40] none "acme"⟩, ⟨0, 20, 0, .upsert [lampAt 99] none "public"⟩,
    ⟨0, 30, 0, .addWatch "ann" "acme" "lamp" none⟩]

/-- The user watches it again, in the other. -/
def rewatchedLamp : List Request :=
  watchedLamp ++ [⟨0, 40, 0, .addWatch "ann" "public" "lamp" none⟩]

/-- The watch of the lamp, at a price. -/
def lampWatch (price : ℚ) : Watch := watchOf "acme" none (offerOf 20 (lampAt price) none) 30

/-- A watch of the lamp that nobody watched before is traced. -/
theorem traced_watchedLamp :
    Traced plainPostgres emptyPool watchedLamp ⟨"ann", "lamp"⟩ (lampWatch 40) := by
  have hsame : (machine plainPostgres).Along SameTenant emptyPool watchedLamp := by
    rw [watchedLamp, Machine.along_cons, Machine.along_cons, Machine.along_cons]
    refine ⟨?_, ?_, ?_, Machine.along_nil _ _⟩
    · intro key tenantId targetPrice offer watch hcopies
      cases hcopies.adds
    · intro key tenantId targetPrice offer watch hcopies
      cases hcopies.adds
    · intro key tenantId targetPrice offer watch hcopies hwatch
      cases hwatch
  exact traced plainPostgres emptyPool.session watchedLamp hsame ⟨"ann", "lamp"⟩ (lampWatch 40)
    (by decide +kernel)

/-- The lamp has the price of the one tenant, under the name of the other. -/
theorem rewatched_not_traced :
    ¬ ∀ (postgres : Postgres) (session : ℕ → Settings) (requests : List Request) (key : WatchKey)
      (watch : Watch), ((machine postgres).run ⟨.empty, session⟩ requests).db.watchlist.get? key =
        some watch → Traced postgres ⟨.empty, session⟩ requests key watch := by
  intro hall
  have hstored : ((machine plainPostgres).run ⟨.empty, emptyPool.session⟩
      rewatchedLamp).db.watchlist.get? ⟨"ann", "lamp"⟩ = some (lampWatch 99) := by
    decide +kernel
  obtain ⟨past, request, later, targetPrice, offer, hsplit, -, hoffer, -, hcopied⟩ :=
    hall plainPostgres emptyPool.session rewatchedLamp ⟨"ann", "lamp"⟩ (lampWatch 99) hstored
  -- the first tenant's lamp never had another price
  have hforty : ∀ n < 5, (((machine plainPostgres).run ⟨.empty, emptyPool.session⟩
      (rewatchedLamp.take n)).db.offers.get? ⟨(lampWatch 99).tenantId, "lamp"⟩).all fun offer =>
        offer.price = 40 := by
    decide +kernel
  have hpast : rewatchedLamp.take past.length = past := by rw [hsplit, List.take_left]
  have hlength : past.length < 5 := by
    have hsum := congrArg List.length hsplit
    rw [List.length_append, List.length_cons, show rewatchedLamp.length = 4 from rfl] at hsum
    omega
  have hprice := hforty past.length hlength
  rw [hpast, hoffer, Option.all_some, ← hcopied.lastPrice] at hprice
  exact absurd hprice (by decide +kernel)

end DealFinder.Store
