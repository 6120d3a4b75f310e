/-
# Nothing outlives its licence

A purge leaves only storable rows no older than the cut-off, and every write brings a
stamp at most an hour old. So between two purges every stamp stays within the cut-off
of the first (`run_within`), and with a purge a day nothing of Best Buy's gets to be
72 hours old.
-/

import DealFinder.Store.Changes
import Mathlib.Tactic.Linarith
import Mathlib.Tactic.NormNum

namespace DealFinder.Store

open DealFinder.Math DealFinder.Shop

/-! ## The condition of the purge -/

/-- The first field is the text before the first delimiter. -/
theorem head_splitOn (text : List Char) (delimiter : Char) :
    (text.splitOn delimiter).getD 0 [] = text.takeWhile (· ≠ delimiter) := by
  induction text with
  | nil => simp
  | cons c rest ih =>
      rw [List.splitOn] at ih ⊢
      rw [List.splitOnP_cons_eq_if_modifyHead]
      by_cases heq : c = delimiter
      · simp [heq]
      · rw [if_neg (by simpa using heq), List.takeWhile_cons_of_pos (by simpa using heq), ← ih]
        cases hfields : rest.splitOnP (· == delimiter) with
        | nil => exact absurd hfields (List.splitOnP_ne_nil _ _)
        | cons head tail => rfl

/-- `split_part` at the first colon is `source_key`. -/
theorem splitPart_eq_sourceKey (source : String) : splitPart source ':' 1 = sourceKey source :=
  congrArg String.ofList (head_splitOn source.toList ':')

theorem mem_purgeKeys {key : String} :
    key ∈ purgeKeys ↔ ∃ policy, policies.get? key = some policy ∧ policy.store = true := by
  have hkeys : ∀ entry ∈ policies.entries, entry.1 = entry.2.key := by decide
  simp only [purgeKeys, storable, List.mem_map, List.mem_filter, Dict.mem_values_iff]
  constructor
  · intro ⟨policy, ⟨⟨other, hother⟩, hstore⟩, hkey⟩
    obtain rfl : other = key := (hkeys _ (Dict.get?_eq_some_iff.1 hother)).trans hkey
    exact ⟨policy, hother, hstore⟩
  · intro ⟨policy, hpolicy, hstore⟩
    exact ⟨policy, ⟨⟨key, hpolicy⟩, hstore⟩, (hkeys _ (Dict.get?_eq_some_iff.1 hpolicy)).symm⟩

/-- The keys of the purge are those of the sources that may be stored. -/
theorem sourceKey_mem_purgeKeys {source : String} :
    sourceKey source ∈ purgeKeys ↔ mayStore source = true := by
  rw [mem_purgeKeys, mayStore, grants, policyFor, Option.any_eq_true]

/-- Every storable row may be kept for 72 hours. -/
theorem maxAgeS_of_storable {policy : SourcePolicy} (h : policy ∈ storable) :
    (policy.maxAgeS : ℚ) = 72 * 3600 := by
  have hall : ∀ policy ∈ storable, policy.maxAgeS = 72 * 3600 := by decide
  rw [hall policy h]
  norm_num

/-- The age beyond which the purge deletes: 47 hours. -/
def cutoff : ℚ := 47 * 3600

/-- A row of a storable policy is too old when its stamp is before the cut-off. -/
theorem lt_purgeCutoff_iff {policy : SourcePolicy} (h : policy ∈ storable) {now stamp : ℚ} :
    stamp < now - (policy.maxAgeS - retentionMarginS) ↔ stamp < now - cutoff := by
  have hcutoff : (policy.maxAgeS : ℚ) - retentionMarginS = cutoff := by
    rw [maxAgeS_of_storable h, retentionMarginS, cutoff]
    norm_num
  rw [hcutoff]

/-- What the purge leaves: rows of storable sources, no older than the cut-off. -/
theorem expired_eq_false_iff {now : ℚ} {source : Option String} {stamp : ℚ} :
    expired now retentionMarginS source stamp = false ↔
      ∃ text, source = some text ∧ mayStore text = true ∧ now - cutoff ≤ stamp := by
  cases source with
  | none => simp [expired]
  | some text =>
      have hsome : (∃ other, some text = some other ∧ mayStore other = true ∧
          now - cutoff ≤ stamp) ↔ mayStore text = true ∧ now - cutoff ≤ stamp :=
        ⟨fun ⟨other, heq, h⟩ => Option.some.inj heq ▸ h, fun h => ⟨text, rfl, h⟩⟩
      rw [hsome, ← sourceKey_mem_purgeKeys]
      simp only [expired, Option.map_some, splitPart_eq_sourceKey, purgeKeys, purgeCutoffs,
        List.zip_map', List.any_map, Bool.or_eq_false_iff, Bool.not_eq_false', List.any_eq_true,
        List.any_eq_false, Function.comp_apply, decide_eq_true_iff, Option.some.injEq,
        Bool.and_eq_true, List.mem_map, not_and, not_lt]
      apply and_congr_right
      intro ⟨policy, hpolicy, hkey⟩
      constructor
      · exact fun h => not_lt.1 fun hlt =>
          not_le.2 ((lt_purgeCutoff_iff hpolicy).2 hlt) (h policy hpolicy hkey)
      · exact fun h other hother _ => not_lt.1 fun hlt =>
          not_le.2 ((lt_purgeCutoff_iff hother).1 hlt) h

/-! ## One purge -/

section Purge

variable {now : ℚ} {db : Database}

/-- A row survives a purge when its source is storable and it is no older than the cut-off. -/
theorem get?_offers_purged {key : OfferKey} {offer : Offer} :
    (purged now retentionMarginS db).offers.get? key = some offer ↔
      db.offers.get? key = some offer ∧ mayStore offer.source = true ∧
        now - cutoff ≤ offer.fetchedAt := by
  rw [purged, Dict.get?_filter, Option.filter_eq_some_iff, Bool.not_eq_true', expired_eq_false_iff]
  refine and_congr_right fun _ => ⟨?_, fun h => ⟨_, rfl, h⟩⟩
  rintro ⟨text, heq, h⟩
  rw [Option.some.inj heq]
  exact h

theorem get?_watchlist_purged {key : WatchKey} {watch : Watch} :
    (purged now retentionMarginS db).watchlist.get? key = some watch ↔
      db.watchlist.get? key = some watch ∧
        ∃ text, watch.source = some text ∧ mayStore text = true ∧
          now - cutoff ≤ watch.lastCheckedAt := by
  rw [purged, Dict.get?_filter, Option.filter_eq_some_iff, Bool.not_eq_true', expired_eq_false_iff]

/-- A second purge at the same instant finds nothing to delete. -/
theorem purgeExpired_again {settings : Settings} (hjob : settings.role = .job) :
    purgeExpired now retentionMarginS settings (purged now retentionMarginS db) =
      (.ok (0, 0), purged now retentionMarginS db) := by
  have hnone : ∀ {κ ν : Type} (gone : κ → ν → Bool) (table : Dict κ ν),
      (table.filter fun k v => gone k v && !gone k v).size = 0 := by
    intro κ ν gone table
    rw [Dict.size, Dict.entries_filter, List.length_eq_zero_iff, List.filter_eq_nil_iff]
    simp
  rw [purgeExpired_eq now retentionMarginS hjob]
  simp only [purged, Dict.filter_filter, Bool.and_self]
  rw [hnone, hnone]

end Purge

/-- A purge of purged tables answers that it deleted nothing. -/
theorem step_purge_again {postgres : Postgres} {request : Request}
    (hop : request.op = .purgeExpired) {pool : Pool} {db : Database}
    (hpurged : pool.db = purged request.time retentionMarginS db) :
    pool.step postgres request = (.ok (.purged 0 0), pool) := by
  have hrun : pool.transaction postgres request = (.ok (.purged 0 0), pool.db) := by
    have hagain := @purgeExpired_again request.time db (jobScope (pool.session request.conn)) rfl
    rw [← hpurged] at hagain
    rw [Pool.transaction, hop]
    exact Effect.bind_of_ok hagain
  rw [Pool.step, hrun]

/-! ## Runs -/

/-- No stamp is older than a floor. -/
structure Within (floor : ℚ) (db : Database) : Prop where
  offers : ∀ key offer, db.offers.get? key = some offer → floor ≤ offer.fetchedAt
  watchlist : ∀ key watch, db.watchlist.get? key = some watch → floor ≤ watch.lastCheckedAt

/-- The operation is a purge. -/
def Op.isPurge : Op → Bool
  | .purgeExpired => true
  | _ => false

/-- The time of the last purge, or the start. -/
def lastPurge (past : List Request) : ℚ :=
  ((past.filter fun request => request.op.isPurge).getLast?.map Request.time).getD 0

/-- Requests come in the order of their times, from time zero. -/
def Chronological (requests : List Request) : Prop :=
  (∀ request ∈ requests, 0 ≤ request.time) ∧
    requests.Pairwise fun earlier later => earlier.time ≤ later.time

/-- An `upsert` writes a row within an hour of the time the row carries. -/
def Prompt (request : Request) : Prop :=
  ∀ products embeddings tenant, request.op = .upsert products embeddings tenant →
    ∀ p ∈ products, request.time - p.fetchedAt.getD request.time ≤ 3600

section Run

variable {postgres : Postgres} {pool : Pool} {request : Request} {past requests : List Request}
variable {floor : ℚ}

theorem within_empty (floor : ℚ) : Within floor .empty where
  offers := by
    intro key offer hoffer
    cases hoffer
  watchlist := by
    intro key watch hwatch
    cases hwatch

theorem Within.set_offer {db : Database} (h : Within floor db) {key : OfferKey} {offer : Offer}
    (hoffer : floor ≤ offer.fetchedAt) : Within floor (withOffer db key offer) where
  offers := by
    intro other found hfound
    rw [withOffer, Dict.get?_set] at hfound
    split at hfound
    · rw [← Option.some.inj hfound, refreshed]
      cases db.offers.get? key <;> exact hoffer
    · exact h.offers other found hfound
  watchlist := h.watchlist

theorem Within.set_watch {db : Database} (h : Within floor db) {key : WatchKey} {watch : Watch}
    (hwatch : floor ≤ watch.lastCheckedAt) : Within floor (withWatch db key watch) where
  offers := h.offers
  watchlist := by
    intro other found hfound
    rw [withWatch, Dict.get?_set] at hfound
    split at hfound
    · rw [← Option.some.inj hfound, rewatched]
      cases db.watchlist.get? key <;> exact hwatch
    · exact h.watchlist other found hfound

/-- No request brings a stamp more than an hour old, so none goes below an older floor. -/
theorem Within.step (h : Within floor pool.db) (hprompt : Prompt request)
    (hfloor : floor ≤ request.time - 3600) : Within floor (pool.step postgres request).2.db := by
  refine step_of_changes (fun db db' hchange h => ?_) h
  cases hchange with
  | offer hop hpair hstore hembedding =>
      apply h.set_offer
      have hfresh := hprompt _ _ _ hop _ (List.of_mem_zip hpair).1
      rw [offerOf]
      linarith
  | watch hop hoffer hstore => exact h.set_watch (h.offers _ _ hoffer)
  | unwatch hop =>
      refine ⟨h.offers, fun key watch hwatch => h.watchlist key watch ?_⟩
      rw [Dict.get?_eraseAll] at hwatch
      split at hwatch
      · cases hwatch
      · exact hwatch
  | searches => exact ⟨h.offers, h.watchlist⟩
  | purge =>
      exact ⟨fun key offer hoffer => h.offers key offer (get?_offers_purged.1 hoffer).1,
        fun key watch hwatch => h.watchlist key watch (get?_watchlist_purged.1 hwatch).1⟩

/-- A purge raises the floor to its cut-off. -/
theorem within_purge (hop : request.op = .purgeExpired) :
    Within (request.time - cutoff) (pool.step postgres request).2.db := by
  rw [step_purged hop]
  constructor
  · exact fun key offer hoffer => (get?_offers_purged.1 hoffer).2.2
  · intro key watch hwatch
    obtain ⟨-, -, -, -, hfloor⟩ := get?_watchlist_purged.1 hwatch
    exact hfloor

theorem lastPurge_concat (past : List Request) (request : Request) :
    lastPurge (past ++ [request]) =
      if request.op.isPurge then request.time else lastPurge past := by
  cases hpurge : request.op.isPurge <;> simp [lastPurge, List.filter_append, hpurge]

theorem Chronological.left (h : Chronological (past ++ [request])) : Chronological past :=
  ⟨fun earlier hearlier => h.1 earlier (List.mem_append_left _ hearlier),
    (List.pairwise_append.1 h.2).1⟩

theorem Chronological.lastPurge_le (h : Chronological (past ++ [request])) :
    lastPurge past ≤ request.time := by
  have hlast := h.1 request (by simp)
  rw [lastPurge]
  cases hpurge : (past.filter fun request => request.op.isPurge).getLast? with
  | none => exact hlast
  | some purge =>
      have hmem := (List.mem_filter.1 (List.mem_of_getLast? hpurge)).1
      exact (List.pairwise_append.1 h.2).2.2 purge hmem request (by simp)

/-- **The floor of a run.** No stamp is older than the cut-off of the last purge. -/
theorem run_within (session : ℕ → Settings) (requests : List Request)
    (hordered : Chronological requests) (hprompt : ∀ request ∈ requests, Prompt request) :
    Within (lastPurge requests - cutoff)
      ((machine postgres).run ⟨.empty, session⟩ requests).db := by
  induction requests using List.reverseRecOn with
  | nil => exact within_empty _
  | append_singleton past request ih =>
      have hpast := ih hordered.left fun earlier hearlier =>
        hprompt earlier (List.mem_append_left _ hearlier)
      rw [Machine.run_concat, lastPurge_concat]
      by_cases hop : request.op = .purgeExpired
      · rw [hop]
        exact within_purge hop
      · have hnot : request.op.isPurge = false := by
          cases hreq : request.op <;> first | rfl | exact absurd hreq hop
        have hle := hordered.lastPurge_le
        rw [hnot]
        apply hpast.step (hprompt request (by simp))
        simp only [cutoff]
        linarith

end Run

/-- The moment is at most a day after the last purge of a run, or after the start of one
without a purge, and not before its end. -/
def Attended (requests : List Request) (now : ℚ) : Prop :=
  (∀ request ∈ requests, request.time ≤ now) ∧ now ≤ lastPurge requests + 24 * 3600

/-- **Retention.** With a purge a day and prompt writes, nothing of Best Buy's gets to be 72
hours old. A purge leaves nothing that may not be stored, deletes nothing storable younger
than 47 hours, and has nothing to do a second time; its test of a source is the licence's. -/
theorem retention_holds (postgres : Postgres) (session : ℕ → Settings) :
    (∀ (requests : List Request) (now : ℚ), Chronological requests →
      Attended requests now → (∀ request ∈ requests, Prompt request) →
        let db := ((machine postgres).run ⟨.empty, session⟩ requests).db
        (∀ key offer, db.offers.get? key = some offer → sourceKey offer.source = "BestBuy" →
          now - offer.fetchedAt < 72 * 3600) ∧
        ∀ key watch, db.watchlist.get? key = some watch →
          watch.source.map sourceKey = some "BestBuy" →
            now - watch.lastCheckedAt < 72 * 3600) ∧
    (∀ (pool : Pool) (conn : ℕ) (now : ℚ) (generated : Uuid),
      let purge : Request := ⟨conn, now, generated, .purgeExpired⟩
      let after := (pool.step postgres purge).2
      (∀ key offer, after.db.offers.get? key = some offer → mayStore offer.source = true) ∧
      (∀ key watch, after.db.watchlist.get? key = some watch →
        ∃ source, watch.source = some source ∧ mayStore source = true) ∧
      (∀ key offer, pool.db.offers.get? key = some offer → mayStore offer.source = true →
        now - offer.fetchedAt < 47 * 3600 → after.db.offers.get? key = some offer) ∧
      (∀ key watch source, pool.db.watchlist.get? key = some watch →
        watch.source = some source → mayStore source = true →
          now - watch.lastCheckedAt < 47 * 3600 → after.db.watchlist.get? key = some watch) ∧
      after.step postgres purge = (.ok (.purged 0 0), after)) ∧
    ∀ source, splitPart source ':' 1 = sourceKey source := by
  refine ⟨fun requests now hordered hattended hprompt => ?_,
    fun pool conn now generated => ?_, splitPart_eq_sourceKey⟩
  · have hwithin := @run_within postgres session requests hordered hprompt
    have hlast := hattended.2
    constructor
    · intro key offer hoffer _
      have hfloor := hwithin.offers key offer hoffer
      simp only [cutoff] at hfloor
      linarith
    · intro key watch hwatch _
      have hfloor := hwithin.watchlist key watch hwatch
      simp only [cutoff] at hfloor
      linarith
  · have hafter := @step_purged postgres ⟨conn, now, generated, .purgeExpired⟩ rfl pool
    refine ⟨fun key offer hoffer => ?_, fun key watch hwatch => ?_,
      fun key offer hoffer hstore hyoung => ?_,
      fun key watch source hwatch hsource hstore hyoung => ?_, step_purge_again rfl hafter⟩
    · rw [hafter] at hoffer
      exact (get?_offers_purged.1 hoffer).2.1
    · rw [hafter] at hwatch
      obtain ⟨-, source, hsource, hstore, -⟩ := get?_watchlist_purged.1 hwatch
      exact ⟨source, hsource, hstore⟩
    · rw [hafter]
      refine get?_offers_purged.2 ⟨hoffer, hstore, ?_⟩
      simp only [cutoff]
      linarith
    · rw [hafter]
      refine get?_watchlist_purged.2 ⟨hwatch, source, hsource, hstore, ?_⟩
      simp only [cutoff]
      linarith

/-- A radio of Best Buy's, fetched at a time. -/
def radioRow (fetchedAt : ℚ) : Row :=
  ⟨"radio", "a radio", none, "BestBuy", 40, none, none, none, none, none, some fetchedAt⟩

/-- A radio is stored and watched, and a day later the purge runs. -/
def radioRequests : List Request :=
  [⟨0, 600, 0, .upsert [radioRow 0] none "public"⟩,
    ⟨0, 3600, 0, .addWatch "ann" "public" "radio" none⟩, ⟨0, 86400, 0, .purgeExpired⟩]

/-- Another day later the radio is still stored, and less than 72 hours old. -/
theorem retention_holds_radio :
    ∃ offer watch,
      ((machine plainPostgres).run emptyPool radioRequests).db.offers.get?
        ⟨"public", "radio"⟩ = some offer ∧ 172000 - offer.fetchedAt < 72 * 3600 ∧
      ((machine plainPostgres).run emptyPool radioRequests).db.watchlist.get?
        ⟨"ann", "radio"⟩ = some watch ∧ 172000 - watch.lastCheckedAt < 72 * 3600 := by
  have hordered : Chronological radioRequests := by
    constructor
    · decide +kernel
    · decide +kernel
  have hattended : Attended radioRequests 172000 := by
    constructor
    · decide +kernel
    · decide +kernel
  have hprompt : ∀ request ∈ radioRequests, Prompt request := by
    intro request hrequest products embeddings tenant hop p hp
    simp only [radioRequests, List.mem_cons, List.not_mem_nil, or_false] at hrequest
    rcases hrequest with rfl | rfl | rfl
    · cases hop
      rw [List.mem_singleton.1 hp]
      decide +kernel
    · cases hop
    · cases hop
  have hretained := (retention_holds plainPostgres emptyPool.session).1 radioRequests 172000
    hordered hattended hprompt
  have hoffer : ∃ offer,
      ((machine plainPostgres).run emptyPool radioRequests).db.offers.get?
        ⟨"public", "radio"⟩ = some offer ∧ sourceKey offer.source = "BestBuy" := by
    refine ⟨offerOf 600 (radioRow 0) none, ?_, ?_⟩ <;> decide +kernel
  have hwatch : ∃ watch,
      ((machine plainPostgres).run emptyPool radioRequests).db.watchlist.get?
        ⟨"ann", "radio"⟩ = some watch ∧ watch.source.map sourceKey = some "BestBuy" := by
    refine ⟨watchOf "public" none (offerOf 600 (radioRow 0) none) 3600, ?_, ?_⟩ <;>
      decide +kernel
  obtain ⟨offer, hoffer, hsource⟩ := hoffer
  obtain ⟨watch, hwatch, hwatched⟩ := hwatch
  exact ⟨offer, watch, hoffer, hretained.1 _ offer hoffer hsource, hwatch,
    hretained.2 _ watch hwatch hwatched⟩

end DealFinder.Store
