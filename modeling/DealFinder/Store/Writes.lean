/-
# The writes of an offer

Between purges the row of an offer is what the committed writes of that offer made of
it, one after the other in the order of their commits (`get?_run`).
-/

import DealFinder.Store.Changes

namespace DealFinder.Store

open DealFinder.Math DealFinder.Shop

section Writes

variable (postgres : Postgres)

/-- The row that `upsert` proposes for a pair. -/
def proposed (now : ℚ) (p : Row) (emb : Option (List ℚ)) : Offer :=
  offerOf now p ((storedEmbedding postgres p emb).toOption.join)

/-- The rows proposed for an id, as they come. -/
def proposals (now : ℚ) (id : String) (pairs : List (Row × Option (List ℚ))) : List Offer :=
  pairs.filterMap fun pair =>
    if mayStore pair.1.source ∧ pair.1.id = id then some (proposed postgres now pair.1 pair.2)
    else none

/-- The rows that a request proposes for an offer. -/
def Request.proposes (request : Request) (key : OfferKey) : List Offer :=
  match request.op with
  | .upsert products embeddings tenant =>
      if tenant = key.tenantId then
        proposals postgres request.time key.id (upsertPairs products embeddings)
      else []
  | _ => []

/-- The rows written for an offer in a run, in the order of the commits. -/
def written (pool : Pool) (requests : List Request) (key : OfferKey) : List Offer :=
  ((machine postgres).observe (fun request answer =>
    if answer.isOk then some (request.proposes postgres key) else none) pool requests).flatten

end Writes

/-- What writes make of a row. -/
def rewrite (old : Option Offer) (offers : List Offer) : Option Offer :=
  offers.foldl (fun old offer => some (refreshed offer old)) old

section Row

variable {postgres : Postgres} {settings : Settings} {tenant userId : String} {now : ℚ}

theorem get?_withOffer (db : Database) (key other : OfferKey) (offer : Offer) :
    (withOffer db key offer).offers.get? other =
      if other = key then some (refreshed offer (db.offers.get? other))
      else db.offers.get? other := by
  rw [withOffer, Dict.get?_set]
  split
  · next heq => rw [heq]
  · rfl

theorem proposals_cons (id : String) (pair : Row × Option (List ℚ))
    (rest : List (Row × Option (List ℚ))) :
    proposals postgres now id (pair :: rest) =
      (if mayStore pair.1.source ∧ pair.1.id = id then [proposed postgres now pair.1 pair.2]
      else []) ++ proposals postgres now id rest := by
  simp only [proposals, List.filterMap_cons]
  by_cases hmatch : mayStore pair.1.source ∧ pair.1.id = id
  · simp only [if_pos hmatch]
    rfl
  · simp only [if_neg hmatch]
    rfl

/-- An `upsert` that succeeds makes of each row what it proposes for it. -/
theorem upsertRows_ok (h : settings.Scopes tenant userId) (key : OfferKey)
    (pairs : List (Row × Option (List ℚ))) {n m : ℕ} {db after : Database}
    (hrun : upsertRows postgres settings tenant now pairs n db = (.ok m, after)) :
    after.offers.get? key =
      if tenant = key.tenantId then
        rewrite (db.offers.get? key) (proposals postgres now key.id pairs)
      else db.offers.get? key := by
  induction pairs generalizing n db with
  | nil =>
      cases hrun
      exact (ite_self _).symm
  | cons pair rest ih =>
      obtain ⟨p, emb⟩ := pair
      rw [upsertRows_cons] at hrun
      by_cases hstore : mayStore p.source = true
      · simp only [hstore, Bool.not_true, Bool.false_eq_true, if_false] at hrun
        cases hwrite : upsertOffer postgres settings tenant now p emb db with
        | error e =>
            rw [Effect.bind_of_error (Effect.attempt_of_error hwrite)] at hrun
            cases hrun
        | ok outcome =>
            rw [Effect.bind_of_ok (Effect.attempt_of_ok hwrite)] at hrun
            obtain ⟨embedding, hembedding, hafter⟩ := upsertOffer_ok postgres now h hwrite
            have hset : outcome.2 = withOffer db ⟨tenant, p.id⟩ (proposed postgres now p emb) := by
              rw [hafter, proposed, hembedding]
              rfl
            rw [ih hrun, hset, get?_withOffer, proposals_cons]
            by_cases htenant : tenant = key.tenantId
            · by_cases hid : p.id = key.id
              · have hkey : key = ⟨tenant, p.id⟩ := by rw [htenant, hid]
                simp only [if_pos htenant, if_pos hkey, if_pos (And.intro hstore hid)]
                rfl
              · have hkey : key ≠ ⟨tenant, p.id⟩ := fun heq => hid (by rw [heq])
                simp only [if_pos htenant, if_neg hkey, if_neg fun h : _ ∧ _ => hid h.2,
                  List.nil_append]
            · have hkey : key ≠ ⟨tenant, p.id⟩ := fun heq => htenant (by rw [heq])
              simp only [if_neg htenant, if_neg hkey]
      · simp only [Bool.eq_false_of_not_eq_true hstore, Bool.not_false, if_true] at hrun
        rw [ih hrun, proposals_cons, if_neg fun h : _ ∧ _ => hstore h.1, List.nil_append]

end Row

section Run

variable {postgres : Postgres} {pool : Pool} {request : Request} {key : OfferKey}

theorem offers_step (hwrites : ∀ products embeddings tenant,
    request.op ≠ .upsert products embeddings tenant) (hpurge : request.op ≠ .purgeExpired) :
    (pool.step postgres request).2.db.offers = pool.db.offers := by
  refine step_of_changes (P := fun db => db.offers = pool.db.offers)
    (fun db db' hchange h => ?_) rfl
  cases hchange with
  | offer hop => exact absurd hop (hwrites _ _ _)
  | purge hop => exact absurd hop hpurge
  | watch | unwatch | searches => exact h

/-- The row of an offer after a request that is no purge. -/
theorem get?_step (hpurge : request.op ≠ .purgeExpired) :
    (pool.step postgres request).2.db.offers.get? key =
      if (pool.step postgres request).1.isOk then
        rewrite (pool.db.offers.get? key) (request.proposes postgres key)
      else pool.db.offers.get? key := by
  by_cases hwrites : ∃ products embeddings tenant, request.op = .upsert products embeddings tenant
  · obtain ⟨products, embeddings, tenant, hop⟩ := hwrites
    rw [Pool.step, Request.proposes, hop]
    cases hrun : pool.transaction postgres request with
    | mk result db =>
        cases result with
        | error e => rfl
        | ok answer =>
            rw [Pool.transaction, hop] at hrun
            obtain ⟨count, middle, hrows, hanswer⟩ := Effect.exists_of_bind_ok hrun
            cases hanswer
            simp only [Except.isOk, Except.toBool, if_true]
            exact (upsertRows_ok (scopes_catalog tenant (pool.session request.conn)) key _
              hrows).trans (by split <;> rfl)
  · have hsame : (pool.step postgres request).2.db.offers = pool.db.offers :=
      offers_step (fun products embeddings tenant hop =>
        hwrites ⟨products, embeddings, tenant, hop⟩) hpurge
    have hnone : request.proposes postgres key = [] := by
      rw [Request.proposes]
      split
      · next hop => exact absurd ⟨_, _, _, hop⟩ hwrites
      · rfl
    rw [hsame, hnone]
    exact (ite_self _).symm

theorem rewrite_append (old : Option Offer) (first second : List Offer) :
    rewrite old (first ++ second) = rewrite (rewrite old first) second :=
  List.foldl_append

theorem written_concat (past : List Request) :
    written postgres pool (past ++ [request]) key =
      written postgres pool past key ++
        if ((machine postgres).answerAfter pool past request).isOk then
          request.proposes postgres key
        else [] := by
  rw [written, written, Machine.observe_concat, List.flatten_append]
  split <;> simp

/-- **The row of an offer.** Without purges, it is what the committed writes made of it. -/
theorem get?_run (requests : List Request)
    (hpurge : ∀ request ∈ requests, request.op ≠ .purgeExpired) :
    ((machine postgres).run pool requests).db.offers.get? key =
      rewrite (pool.db.offers.get? key) (written postgres pool requests key) := by
  induction requests using List.reverseRecOn with
  | nil => rfl
  | append_singleton past request ih =>
      have hpast := ih fun earlier hearlier => hpurge earlier (List.mem_append_left _ hearlier)
      rw [Machine.run_concat, written_concat, rewrite_append, ← hpast]
      have hstep := @get?_step postgres ((machine postgres).run pool past) request key
        (hpurge request (by simp))
      apply hstep.trans
      show (if ((machine postgres).answerAfter pool past request).isOk then _ else _) = _
      split <;> rfl

/-- Where something was written, the last writing is what is left of it but for the
embedding. -/
theorem rewrite_concat (old : Option Offer) (offers : List Offer) (last : Offer) :
    rewrite old (offers ++ [last]) = some (refreshed last (rewrite old offers)) := by
  rw [rewrite_append]
  rfl

end Run

end DealFinder.Store
