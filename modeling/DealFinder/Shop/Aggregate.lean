/-
# Aggregation

`aggregate` queries the configured sources tier by tier until it has enough
offers, keeps the cheapest row of each exact key, collapses rows that look like
one product, and ranks what is left by price.

A source's answer is part of the input: it finds products at some time, fails, or
misses the deadline.
-/

import DealFinder.Shop.Dedup
import Mathlib.Data.Finset.Card

namespace DealFinder.Shop

open DealFinder.Math

/-! ## Fetching -/

/-- What a source does with a query. -/
inductive Answer
  | found (products : List Product) (answeredAt : String)
  | failed
  | late

/-- A source, and how it answers queries. -/
structure Source where
  name : String
  available : Bool
  tier : Option ℤ
  fallbackOnly : Option Bool
  search : String → Answer

/-- `_tier`. -/
def tierOf (s : Source) : ℤ := s.tier.getD 5

/-- `_is_fallback`. -/
def isFallback (s : Source) : Bool := s.fallbackOnly.getD false

/-- `products`, `live`, `throttled` and `timed_out`. -/
structure Gathered where
  products : List Listing
  live : List String
  throttled : List String
  timedOut : List String

/-- Nothing is fetched yet. -/
def Gathered.empty : Gathered := ⟨[], [], [], []⟩

/-- The body of the loop of `run`. -/
def collect (query : String) (gathered : Gathered) (src : Source) : Gathered :=
  match src.search query with
  | .late => { gathered with
      throttled := gathered.throttled ++ [src.name]
      timedOut := gathered.timedOut ++ [src.name] }
  | .failed => { gathered with throttled := gathered.throttled ++ [src.name] }
  | .found products answeredAt =>
      if products = [] then gathered
      else { gathered with
        live := gathered.live ++ [src.name]
        products := gathered.products ++ products.map fun p => ⟨p, answeredAt⟩ }

/-- `run`: the answers of one batch, in submission order. -/
def runBatch (query : String) (gathered : Gathered) (batch : List Source) : Gathered :=
  batch.foldl (collect query) gathered

/-- The arguments of `aggregate` and the state of the breaker. -/
structure Settings where
  /-- `limit`, 24 in every endpoint. -/
  limit : ℕ
  /-- `TARGET_RESULTS`. -/
  target : ℤ
  /-- `_benched`. -/
  benched : String → Bool

section Aggregate

variable (services : Services) (settings : Settings)

/-- `len({dedup_key(p) for p in products}) >= target`. -/
def enough (products : List Listing) : Bool :=
  settings.target ≤ ((products.map fun p => dedupKey services p.toProduct).toFinset.card : ℤ)

/-- The loop over the tiers. -/
def escalate (query : String) (real : List Source) : List ℤ → Gathered → Gathered
  | [], gathered => gathered
  | tier :: rest, gathered =>
      let gathered := runBatch query gathered (real.filter fun s => tierOf s = tier)
      if enough services settings gathered.products then gathered
      else escalate query real rest gathered

/-- `benched`. -/
def benchedNames (sources : List Source) : List String :=
  ((sources.filter Source.available).filter fun s => settings.benched s.name).map Source.name

/-- `available`. -/
def usable (sources : List Source) : List Source :=
  (sources.filter Source.available).filter fun s => s.name ∉ benchedNames settings sources

/-- `real`. -/
def realSources (sources : List Source) : List Source :=
  (usable settings sources).filter fun s => !isFallback s

/-- `sorted({_tier(s) for s in real})`. -/
def tiersOf (sources : List Source) : List ℤ :=
  ((realSources settings sources).map tierOf).dedup.insertionSort (· ≤ ·)

/-- The rows `aggregate` starts from: those of the tiers, or else of the fallbacks. -/
def fetch (query : String) (sources : List Source) : Gathered :=
  let gathered := escalate services settings query (realSources settings sources)
    (tiersOf settings sources) Gathered.empty
  if gathered.products = [] then
    runBatch query gathered ((usable settings sources).filter isFallback)
  else gathered

/-! ## Ranking -/

/-- The body of the exact-key pass. -/
def keepBest (best : Dict String Listing) (p : Listing) : Dict String Listing :=
  match best.get? (dedupKey services p.toProduct) with
  | none => best.set (dedupKey services p.toProduct) p
  | some kept => if p.price < kept.price then best.set (dedupKey services p.toProduct) p else best

/-- `list(best.values())`. -/
def bestByKey (products : List Listing) : List Listing :=
  (products.foldl (keepBest services) Dict.empty).values

/-- A row of the results. -/
structure Offer extends Listing where
  dealPct : ℚ

/-- What `aggregate` returns. -/
structure Aggregated where
  query : String
  sourcesLive : List String
  throttled : List String
  timedOut : List String
  benched : List String
  medianPrice : ℚ
  count : ℕ
  results : List Offer

/-- `statistics.median(...) if prices else 0.0`. -/
def medianOrZero (prices : List ℚ) : ℚ := if prices = [] then 0 else median prices

/-- `sorted(items, key=lambda p: p.price)`. -/
def byPrice (items : List Listing) : List Listing :=
  items.insertionSort fun p q => p.price ≤ q.price

/-- A ranked row with its distance from the median. -/
def toOffer (median : ℚ) (p : Listing) : Offer where
  toListing := p
  dealPct := if median = 0 then 0 else roundTo 1 ((median - p.price) / median * 100)

/-- `aggregate`: the result, and what was handed to the embedding model. -/
def aggregate (query : String) (sources : List Source) : Aggregated × List Handed :=
  let gathered := fetch services settings query sources
  let (items, handed) := dedupByEmbedding services (bestByKey services gathered.products)
  let median := medianOrZero (items.map fun p => p.price)
  let ranked := (byPrice items).take settings.limit
  ({ query := query
     sourcesLive := gathered.live
     throttled := gathered.throttled
     timedOut := gathered.timedOut
     benched := benchedNames settings sources
     medianPrice := roundTo 2 median
     count := ranked.length
     results := ranked.map (toOffer median) }, handed)

end Aggregate

/-! ## What the passes keep -/

variable {services : Services} {settings : Settings}

/-- The exact-key pass keeps the cheapest row of each key. -/
theorem bestByKey_eq (products : List Listing) :
    bestByKey services products =
      (groupsBy (fun p : Listing => dedupKey services p.toProduct) products).map
        (cheapest fun p : Listing => p.price) := by
  have hstep : keepBest services =
      gather (fun p : Listing => dedupKey services p.toProduct) id
        (cheaper fun p : Listing => p.price) := by
    funext best p
    apply eq_gather_cheaper
    · intro hget
      simp [keepBest, hget]
    · intro kept hget hless
      simp [keepBest, hget, hless]
    · intro kept hget hmore
      simp [keepBest, hget, hmore]
  rw [bestByKey, hstep, values_gather]
  rfl

/-- Kept rows have different keys, so no row is kept twice. -/
theorem nodup_bestByKey (products : List Listing) : (bestByKey services products).Nodup := by
  rw [bestByKey_eq]
  exact (nodup_cheapest_keys (fun p : Listing => dedupKey services p.toProduct) _ products).of_map _

/-- `aggregate` ranks the cheapest of each cluster of the rows kept. -/
theorem aggregate_results (query : String) (sources : List Source) :
    (aggregate services settings query sources).1.results.map Offer.toListing =
      (byPrice ((groupsBy (cluster services
          (bestByKey services (fetch services settings query sources).products))
          (bestByKey services (fetch services settings query sources).products)).map
            (cheapest fun p : Listing => p.price))).take settings.limit := by
  rw [← dedupByEmbedding_fst (nodup_bestByKey _)]
  simp [aggregate, Function.comp_def, toOffer]

/-- Every row kept is handed to the embedding model. -/
theorem aggregate_handed (query : String) (sources : List Source) :
    (aggregate services settings query sources).2 =
      (bestByKey services (fetch services settings query sources).products).map
        fun p => p.handed :=
  dedupByEmbedding_snd

end DealFinder.Shop
