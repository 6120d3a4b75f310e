/-
# Rows that may not be mixed

`score_offers` drops the rows of a store that may not be mixed, but only after
they took part in the early stop, the exact-key pass and the clustering. Where
they decided nothing there, deleting them from the answers changes nothing the
shopper sees (`shopSearch_unmixed`). Elsewhere a dropped row takes others along.
-/

import DealFinder.Shop.Search
import Mathlib.Data.List.NodupEquivFin

namespace DealFinder.Shop

open DealFinder.Math

/-- The rows that may be mixed. -/
def mixable (p : Listing) : Bool := mayComingle p.source

/-- An answer without the products that may not be mixed. -/
def Answer.mixed : Answer → Answer
  | .found products answeredAt => .found (products.filter fun p => mayComingle p.source) answeredAt
  | answer => answer

/-- A source without the products that may not be mixed. -/
def Source.mixed (src : Source) : Source :=
  { src with search := fun query => (src.search query).mixed }

/-! ## What the deleted rows must not decide -/

section Conditions

variable (services : Services) (settings : Settings)

/-- Along the tiers queried, the mixable rows alone reach the target when all rows do. -/
def StopsAlike (query : String) (real : List Source) : List ℤ → Gathered → Prop
  | [], _ => True
  | tier :: rest, gathered =>
      let gathered := runBatch query gathered (real.filter fun s => tierOf s = tier)
      enough services settings gathered.products =
          enough services settings (gathered.products.filter mixable) ∧
        (enough services settings gathered.products = false →
          StopsAlike query real rest gathered)

/-- The rows of one exact key. -/
def SameKey (p q : Listing) : Prop :=
  dedupKey services p.toProduct = dedupKey services q.toProduct

/-- Two of some rows are linked by a chain of alike ones. -/
def Linked (items : List Listing) : Listing → Listing → Prop :=
  Relation.EqvGen (Alike services items)

/-- The rows that may not be mixed decide nothing: not when to stop or to fall back,
not the place or the offer of a key or of a cluster, and not what is linked. -/
structure DecideNothing (query : String) (sources : List Source) : Prop where
  stops : StopsAlike services settings query (realSources settings sources)
    (tiersOf settings sources) Gathered.empty
  fallsBack :
    (escalate services settings query (realSources settings sources) (tiersOf settings sources)
        Gathered.empty).products.filter mixable = [] →
      (escalate services settings query (realSources settings sources) (tiersOf settings sources)
        Gathered.empty).products = []
  keys : Outranked mixable (SameKey services) (fun p : Listing => p.price)
    (fetch services settings query sources).products
  clusters : Outranked mixable
    (Linked services (bestByKey services (fetch services settings query sources).products))
    (fun p : Listing => p.price)
    (bestByKey services (fetch services settings query sources).products)
  links : ∀ p ∈ bestByKey services (fetch services settings query sources).products,
    ∀ q ∈ bestByKey services (fetch services settings query sources).products,
      mixable p = true → mixable q = true →
        Linked services (bestByKey services (fetch services settings query sources).products) p q →
          Linked services
            ((bestByKey services (fetch services settings query sources).products).filter mixable)
            p q

end Conditions

/-! ## Fetching -/

/-- A run has fetched the mixable rows of another, with the same failures. -/
structure Mirrors (gathered mixed : Gathered) : Prop where
  products : mixed.products = gathered.products.filter mixable
  throttled : mixed.throttled = gathered.throttled
  timedOut : mixed.timedOut = gathered.timedOut

section Fetching

variable {services : Services} {settings : Settings} {query : String}

theorem Mirrors.collect {gathered mixed : Gathered} (h : Mirrors gathered mixed) (query : String)
    (src : Source) :
    Mirrors (collect query gathered src) (collect query mixed src.mixed) := by
  unfold Shop.collect
  simp only [Source.mixed]
  cases src.search query with
  | late => exact ⟨h.products, congrArg (· ++ _) h.throttled, congrArg (· ++ _) h.timedOut⟩
  | failed => exact ⟨h.products, congrArg (· ++ _) h.throttled, h.timedOut⟩
  | found products answeredAt =>
      have hrows : (products.map fun p => (⟨p, answeredAt⟩ : Listing)).filter mixable =
          (products.filter fun p => mayComingle p.source).map fun p => ⟨p, answeredAt⟩ :=
        List.filter_map
      simp only [Answer.mixed]
      by_cases hempty : products = []
      · simp only [hempty, List.filter_nil, if_true]
        exact h
      · rw [if_neg hempty]
        by_cases hnone : (products.filter fun p => mayComingle p.source) = []
        · rw [if_pos hnone]
          refine ⟨?_, h.throttled, h.timedOut⟩
          rw [List.filter_append, hrows, hnone, List.map_nil, List.append_nil, h.products]
        · rw [if_neg hnone]
          refine ⟨?_, h.throttled, h.timedOut⟩
          rw [List.filter_append, hrows, h.products]

theorem Mirrors.runBatch {gathered mixed : Gathered} (h : Mirrors gathered mixed)
    (query : String) (batch : List Source) :
    Mirrors (runBatch query gathered batch) (runBatch query mixed (batch.map Source.mixed)) := by
  induction batch generalizing gathered mixed with
  | nil => exact h
  | cons src rest ih => exact ih (h.collect query src)

/-- With stops alike, the two runs query the same tiers. -/
theorem Mirrors.escalate {gathered mixed : Gathered} (h : Mirrors gathered mixed)
    {real : List Source} {tiers : List ℤ}
    (hstops : StopsAlike services settings query real tiers gathered) :
    Mirrors (escalate services settings query real tiers gathered)
      (escalate services settings query (real.map Source.mixed) tiers mixed) := by
  induction tiers generalizing gathered mixed with
  | nil => exact h
  | cons tier rest ih =>
      have hbatch := h.runBatch query (real.filter fun s => tierOf s = tier)
      have hfilter : (real.map Source.mixed).filter (fun s => tierOf s = tier) =
          (real.filter fun s => tierOf s = tier).map Source.mixed := List.filter_map
      obtain ⟨hsame, hrest⟩ := hstops
      simp only [Shop.escalate, hfilter, hbatch.products, ← hsame]
      by_cases hstop : enough services settings
          (Shop.runBatch query gathered (real.filter fun s => tierOf s = tier)).products = true
      · simp only [if_pos hstop]
        exact hbatch
      · simp only [if_neg hstop]
        exact ih hbatch (hrest (by simpa using hstop))

theorem benchedNames_mixed (sources : List Source) :
    benchedNames settings (sources.map Source.mixed) = benchedNames settings sources := by
  simp only [benchedNames, List.filter_map, List.map_map]
  rfl

theorem usable_mixed (sources : List Source) :
    usable settings (sources.map Source.mixed) = (usable settings sources).map Source.mixed := by
  rw [usable, usable, benchedNames_mixed, List.filter_map, List.filter_map]
  rfl

theorem realSources_mixed (sources : List Source) :
    realSources settings (sources.map Source.mixed) =
      (realSources settings sources).map Source.mixed := by
  rw [realSources, realSources, usable_mixed, List.filter_map]
  rfl

theorem tiersOf_mixed (sources : List Source) :
    tiersOf settings (sources.map Source.mixed) = tiersOf settings sources := by
  rw [tiersOf, tiersOf, realSources_mixed, List.map_map]
  rfl

/-- The two runs fetch alike. -/
theorem fetch_mixed {sources : List Source}
    (h : DecideNothing services settings query sources) :
    Mirrors (fetch services settings query sources)
      (fetch services settings query (sources.map Source.mixed)) := by
  have hinit : Mirrors Gathered.empty Gathered.empty := ⟨rfl, rfl, rfl⟩
  have htiers := hinit.escalate h.stops
  unfold fetch
  rw [realSources_mixed, tiersOf_mixed, usable_mixed, List.filter_map]
  by_cases hempty : (escalate services settings query (realSources settings sources)
      (tiersOf settings sources) Gathered.empty).products = []
  · have hmixed : (escalate services settings query
        ((realSources settings sources).map Source.mixed) (tiersOf settings sources)
          Gathered.empty).products = [] := by
      rw [htiers.products, hempty, List.filter_nil]
    simp only [if_pos hempty, if_pos hmixed]
    exact htiers.runBatch query _
  · have hmixed : (escalate services settings query
        ((realSources settings sources).map Source.mixed) (tiersOf settings sources)
          Gathered.empty).products ≠ [] := by
      rw [htiers.products]
      exact fun hnone => hempty (h.fallsBack hnone)
    simp only [if_neg hempty, if_neg hmixed]
    exact htiers

end Fetching

/-! ## The passes -/

section Passes

variable {services : Services} {settings : Settings} {query : String}

/-- Offers alike among some of the rows are alike among all of them. -/
theorem Alike.of_filter {p : Listing → Bool} {items : List Listing} {x y : Listing}
    (h : Alike services (items.filter p) x y) : Alike services items x y := by
  obtain ⟨i, j, hlt, hi, hj, hsame⟩ := h
  obtain ⟨place, hplace⟩ :=
    List.sublist_iff_exists_orderEmbedding_getElem?_eq.1 (List.filter_sublist (p := p) (l := items))
  exact ⟨place i, place j, place.lt_iff_lt.2 hlt, (hplace i).symm.trans hi,
    (hplace j).symm.trans hj, hsame⟩

/-- The exact-key pass keeps the mixable rows it would keep without the others. -/
theorem bestByKey_filter {products : List Listing}
    (h : Outranked mixable (SameKey services) (fun p : Listing => p.price) products) :
    (bestByKey services products).filter mixable =
      bestByKey services (products.filter mixable) := by
  rw [bestByKey_eq, bestByKey_eq]
  apply map_cheapest_filter
  · exact fun _ _ _ _ _ _ => Iff.rfl
  · exact fun group hgroup hany => h.leads hgroup hany

/-- The semantic pass keeps the mixable rows it would keep without the others. -/
theorem clusters_filter {items : List Listing} (hitems : items.Nodup)
    (houtranked : Outranked mixable (Linked services items) (fun p : Listing => p.price) items)
    (hlinks : ∀ p ∈ items, ∀ q ∈ items, mixable p = true → mixable q = true →
      Linked services items p q → Linked services (items.filter mixable) p q) :
    ((groupsBy (cluster services items) items).map
        (cheapest fun p : Listing => p.price)).filter mixable =
      (groupsBy (cluster services (items.filter mixable)) (items.filter mixable)).map
        (cheapest fun p : Listing => p.price) := by
  have hclusters := houtranked.congr fun p hp q hq => (cluster_eq_iff hitems hp hq).symm
  apply map_cheapest_filter
  · intro p hp q hq hpm hqm
    have hpmem := List.mem_filter.2 ⟨hp, hpm⟩
    have hqmem := List.mem_filter.2 ⟨hq, hqm⟩
    rw [cluster_eq_iff hitems hp hq, cluster_eq_iff (hitems.filter _) hpmem hqmem]
    constructor
    · exact hlinks p hp q hq hpm hqm
    · exact fun hlinked => hlinked.mono fun _ _ halike => halike.of_filter
  · exact fun group hgroup hany => hclusters.leads hgroup hany

/-- The mixable rows ranked are those ranked without the others. -/
theorem ranked_filter {sources : List Source}
    (h : DecideNothing services settings query sources)
    (hlimit : (fetch services settings query sources).products.length ≤ settings.limit) :
    ((aggregate services settings query sources).1.results.map Offer.toListing).filter mixable =
      ((aggregate services settings query (sources.map Source.mixed)).1.results.map
        Offer.toListing).filter mixable := by
  have hfetch := (fetch_mixed h).products
  have hkeys := bestByKey_filter h.keys
  have hclusters := clusters_filter (nodup_bestByKey _) h.clusters h.links
  have hkept : (bestByKey services (fetch services settings query sources).products).length ≤
      settings.limit := by
    rw [bestByKey_eq, List.length_map]
    exact (length_groupsBy_le _ _).trans hlimit
  rw [aggregate_results, aggregate_results, hfetch, ← hkeys]
  rw [List.take_of_length_le, List.take_of_length_le]
  · rw [byPrice, byPrice, filter_insertionSort, filter_insertionSort, ← hclusters,
      List.filter_filter]
    simp only [Bool.and_self]
  · rw [byPrice, List.length_insertionSort, List.length_map]
    exact (length_groupsBy_le _ _).trans ((List.length_filter_le _ _).trans hkept)
  · rw [byPrice, List.length_insertionSort, List.length_map]
    exact (length_groupsBy_le _ _).trans hkept

/-- Scoring reads the mixable rows only. -/
theorem scoreOffers_congr (services : Services) (mode : Mode) {offers offers' : List Offer}
    (median : ℚ) (h : (offers.map Offer.toListing).filter mixable =
      (offers'.map Offer.toListing).filter mixable) :
    scoreOffers services mode offers median = scoreOffers services mode offers' median := by
  have hrows : ∀ offers : List Offer, (offers.map Offer.toListing).filter
      (fun r => mayComingle r.source) = (offers.map Offer.toListing).filter mixable :=
    fun _ => rfl
  unfold scoreOffers
  rw [hrows, hrows, h]

/-- The median is over rows that may be rated, and these may be mixed. -/
theorem ratedMedian_congr {offers offers' : List Offer}
    (h : (offers.map Offer.toListing).filter mixable =
      (offers'.map Offer.toListing).filter mixable) :
    ratedMedian offers = ratedMedian offers' := by
  have hrated : ∀ offers : List Offer,
      (offers.filter fun r => mayVerdict r.source).map (fun r => r.price) =
        (((offers.map Offer.toListing).filter mixable).filter
          fun r => mayVerdict r.source).map fun r => r.price := by
    intro offers
    rw [List.filter_filter, List.filter_map, List.map_map]
    refine congrArg (List.map _) (List.filter_congr fun r _ => ?_)
    by_cases hverdict : mayVerdict r.source = true
    · have hmix := mayComingle_of_mayVerdict hverdict
      simp [mixable, hverdict, hmix]
    · simp [hverdict]
  rw [ratedMedian, ratedMedian, hrated, hrated, h]

end Passes

/-! ## The two responses -/

/-- What the shopper sees is the same in two responses. -/
def SameShown (response response' : Response) : Prop :=
  response.results = response'.results ∧ response.medianPrice = response'.medianPrice ∧
    response.attribution = response'.attribution

/-- Where the rows that may not be mixed decide nothing, deleting them from the
answers changes nothing the shopper sees. -/
theorem shopSearch_unmixed (services : Services) (settings : Settings) (mode : Mode) (now : String)
    (k : ℕ) (query : String) (sources : List Source)
    (hlimit : (fetch services settings query sources).products.length ≤ settings.limit)
    (h : DecideNothing services settings query sources) :
    SameShown (shopSearch services settings mode now k query sources).1
      (shopSearch services settings mode now k query (sources.map Source.mixed)).1 := by
  have hranked := ranked_filter h hlimit
  have hmedian := ratedMedian_congr hranked
  have hscored := scoreOffers_congr services mode
    (ratedMedian (aggregate services settings query sources).1.results) hranked
  rw [hmedian] at hscored
  simp only [shopSearch, SameShown, hmedian, hscored, and_self]

/-- A store without a policy lists one product next to Best Buy's. -/
def newcomer (title : String) : List Source :=
  [steady "BestBuy" [row "BestBuy" "tv" 100], steady "Newcomer" [row "Newcomer" title 50]]

/-- A product no other store has decides nothing. -/
theorem shopSearch_unmixed_radio :
    SameShown (shopSearch plainServices usual .live "now" 12 "q" (newcomer "radio")).1
      (shopSearch plainServices usual .live "now" 12 "q"
        ((newcomer "radio").map Source.mixed)).1 := by
  have hkept : (bestByKey plainServices
      (fetch plainServices usual "q" (newcomer "radio")).products).Nodup := nodup_bestByKey _
  apply shopSearch_unmixed
  · decide +kernel
  · constructor
    · exact ⟨by decide +kernel, fun _ => trivial⟩
    · decide +kernel
    · apply Outranked.of_apart
      unfold SameKey
      decide +kernel
    · apply Outranked.of_apart
      intro x hx hpx y hy hpy
      unfold Linked
      rw [← cluster_eq_iff hkept hy hx]
      revert x y
      decide +kernel
    · intro p hp q hq hpm hqm hlinked
      clear hlinked
      have hsame : p = q := by
        revert p q
        decide +kernel
      rw [hsame]
      exact .refl q

/-- The same product, cheaper, hides Best Buy's row and is then dropped itself. -/
theorem dropped_row_takes_another :
    ¬ ∀ (services : Services) (settings : Settings) (mode : Mode) (now : String) (k : ℕ)
        (query : String) (sources : List Source),
      (∀ src ∈ sources, ∃ products answeredAt, src.search query = .found products answeredAt) →
        (fetch services settings query sources).products.length ≤ settings.limit →
          (fetch services settings query sources).products.length ≤ k →
            SameShown (shopSearch services settings mode now k query sources).1
              (shopSearch services settings mode now k query (sources.map Source.mixed)).1 := by
  intro hall
  have hshown := hall plainServices usual .live "now" 12 "q" (newcomer "tv")
    (by simp [newcomer, steady]) (by decide +kernel) (by decide +kernel)
  exact absurd hshown.1 (by decide +kernel)

end DealFinder.Shop
