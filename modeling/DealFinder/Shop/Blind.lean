/-
# What the scorer does not see

From the aggregated rows on, what the shopper is shown depends only on the rows
that may be mixed, and there not on the fields kept for display: the store's own
"was" price, the SKU, the links and the time of the answer. Two lists of rows that
agree once these are dropped are rated alike (`rate_blind`).
-/

import DealFinder.Shop.Unmixed

namespace DealFinder.Shop

open DealFinder.Math

/-- A row without its display-only fields. -/
def Listing.bare (r : Listing) : Listing :=
  { r with regularPrice := none, sku := none, url := "", imageUrl := none, fetchedAt := "" }

/-- A ranked row without its display-only fields. -/
def Offer.bare (r : Offer) : Offer := { r with toListing := r.toListing.bare }

/-- A result without what is made of the display-only fields. -/
def Scored.bare (x : Scored) : Scored :=
  { x with
    regularPrice := none, sku := none, slug := none, url := "", imageUrl := none,
    fetchedAt := "" }

/-- What `shop_search` makes of the aggregated rows. -/
structure Rated where
  medianPrice : Option ℚ
  results : List Scored
  /-- What was handed to the embedding model. -/
  handed : List Handed

/-- `shop_search`, from the aggregated rows on. -/
def rate (services : Services) (mode : Mode) (k : ℕ) (offers : List Offer) : Rated :=
  let median := ratedMedian offers
  let (scored, handed) := scoreOffers services mode offers median
  ⟨shownMedian mode median, scored.take k, handed⟩

/-- The response shows what `rate` makes of the aggregated rows. -/
theorem shopSearch_rate (services : Services) (settings : Settings) (mode : Mode) (now : String)
    (k : ℕ) (query : String) (sources : List Source) :
    let offers := (aggregate services settings query sources).1.results
    let response := (shopSearch services settings mode now k query sources).1
    response.medianPrice = (rate services mode k offers).medianPrice ∧
      response.results = (rate services mode k offers).results := ⟨rfl, rfl⟩

/-! ## The display-only fields -/

section Bare

variable {services : Services}

theorem peerPlaces_bare (rows : List Listing) :
    peerPlaces (rows.map Listing.bare) = peerPlaces rows := by
  unfold peerPlaces
  rw [List.length_map]
  apply List.filter_congr
  intro i _
  rw [List.getElem?_map, Option.any_map]
  rfl

theorem filterMap_bare (rows : List Listing) (places : List ℕ) :
    places.filterMap (fun i => (rows.map Listing.bare)[i]?) =
      (places.filterMap fun i => rows[i]?).map Listing.bare := by
  rw [List.map_filterMap]
  simp only [List.getElem?_map]

theorem peerFair_bare (offers : List Listing) (i : ℕ) :
    peerFair services (offers.map Listing.bare) i = peerFair services offers i := by
  unfold peerFair
  rw [List.getElem?_map]
  cases offers[i]? with
  | none => rfl
  | some offer =>
      simp only [Option.map_some, List.map_map, List.getElem?_map, Option.map_map]
      rfl

theorem peerFairPrices_bare (offers : List Listing) :
    peerFairPrices services (offers.map Listing.bare) = peerFairPrices services offers := by
  unfold peerFairPrices
  rw [List.length_map]
  split_ifs
  · rfl
  · apply Prod.ext
    · funext i
      exact peerFair_bare offers i
    · rw [List.map_map]
      rfl

theorem scoreRow_bare (median : ℚ) (r : Listing) (peer : Option ℚ) :
    scoreRow services median r.bare peer = (scoreRow services median r peer).bare := by
  unfold scoreRow
  by_cases hrated : mayVerdict r.source = true
  · rw [if_pos hrated, if_pos (show mayVerdict r.bare.source = true from hrated)]
    rfl
  · rw [if_neg hrated, if_neg (show ¬ mayVerdict r.bare.source = true from hrated)]
    rfl

/-- Sorting by value reads none of the display-only fields. -/
theorem sort_bare (scored : List Scored) :
    (scored.map Scored.bare).insertionSort (fun x y => value y ≤ value x) =
      (scored.insertionSort fun x y => value y ≤ value x).map Scored.bare := by
  symm
  apply List.map_insertionSort
  intro x _ y _
  exact Iff.rfl

theorem scoreLive_bare (rows : List Listing) (median : ℚ) :
    scoreLive services (rows.map Listing.bare) median =
      ((scoreLive services rows median).1.map Scored.bare,
        (scoreLive services rows median).2) := by
  unfold scoreLive
  simp only [peerPlaces_bare, filterMap_bare, peerFairPrices_bare, List.zipIdx_map, List.map_map]
  rw [← sort_bare, List.map_map]
  apply Prod.ext
  · apply congrArg (List.insertionSort _)
    apply List.map_congr_left
    rintro ⟨r, i⟩ _
    exact scoreRow_bare median r _
  · rfl

/-- The rows that may be mixed of the bare rows are the bare rows that may be mixed. -/
theorem filter_bare (offers : List Offer) :
    ((offers.map Offer.bare).map Offer.toListing).filter (fun r => mayComingle r.source) =
      ((offers.map Offer.toListing).filter fun r => mayComingle r.source).map Listing.bare := by
  rw [List.map_map, List.filter_map, List.filter_map, List.map_map]
  rfl

/-- Scoring bare rows gives the bare results, and hands over the same titles. -/
theorem scoreOffers_bare (mode : Mode) (offers : List Offer) (median : ℚ) :
    scoreOffers services mode (offers.map Offer.bare) median =
      ((scoreOffers services mode offers median).1.map Scored.bare,
        (scoreOffers services mode offers median).2) := by
  unfold scoreOffers
  rw [filter_bare]
  cases mode with
  | check =>
      simp only [List.map_map]
      rfl
  | live => exact scoreLive_bare _ median

theorem ratedMedian_bare (offers : List Offer) :
    ratedMedian (offers.map Offer.bare) = ratedMedian offers := by
  unfold ratedMedian
  rw [List.filter_map, List.map_map]
  rfl

end Bare

/-! ## The rows that may not be mixed -/

/-- The rows that may be mixed, without their display-only fields. -/
def essence (offers : List Offer) : List Offer :=
  (offers.filter fun r => mayComingle r.source).map Offer.bare

section Essence

theorem filter_essence (offers : List Offer) :
    ((essence offers).map Offer.toListing).filter mixable =
      ((offers.map Offer.bare).map Offer.toListing).filter mixable := by
  unfold essence
  rw [List.map_map, List.map_map, List.filter_map, List.filter_map, List.filter_filter]
  congr 1
  apply List.filter_congr
  intro r _
  exact Bool.and_self _

/-- What is rated of some rows is what is rated of their essence. -/
theorem rate_essence (services : Services) (mode : Mode) (k : ℕ) (offers : List Offer) :
    (rate services mode k (essence offers)).medianPrice =
        (rate services mode k offers).medianPrice ∧
      (rate services mode k (essence offers)).results =
        (rate services mode k offers).results.map Scored.bare := by
  have hmedian : ratedMedian (essence offers) = ratedMedian offers := by
    rw [ratedMedian_congr (filter_essence offers), ratedMedian_bare]
  have hscored := scoreOffers_congr services mode (ratedMedian offers) (filter_essence offers)
  rw [scoreOffers_bare] at hscored
  constructor
  · simp only [rate, hmedian]
  · simp only [rate, hmedian, hscored, List.map_take]

end Essence

/-- The titles handed over are of rows that may be both rated and embedded. -/
theorem scoreOffers_handed_row {services : Services} {mode : Mode} {offers : List Offer}
    {median : ℚ} {title : Handed} (h : title ∈ (scoreOffers services mode offers median).2) :
    ∃ r ∈ offers, r.handed = title ∧ mayVerdict r.source = true ∧ mayEmbed r.source = true := by
  cases mode with
  | check => cases h
  | live =>
      simp only [scoreOffers, scoreLive, peerFairPrices] at h
      split_ifs at h with hfew
      · cases h
      · obtain ⟨r, hr, rfl⟩ := List.mem_map.1 h
        obtain ⟨i, hi, hplace⟩ := List.mem_filterMap.1 hr
        have hallowed := (List.mem_filter.1 hi).2
        rw [hplace, Option.any_some, Bool.and_eq_true] at hallowed
        have hrow := (List.mem_filter.1 (List.mem_of_getElem? hplace)).1
        obtain ⟨offer, hoffer, rfl⟩ := List.mem_map.1 hrow
        exact ⟨offer, hoffer, rfl, hallowed⟩

/-- **The scorer is blind** to rows that may not be mixed and to display-only
fields, and it embeds only titles of rows that may be rated and embedded. -/
theorem rate_blind (services : Services) (mode : Mode) (k : ℕ) (offers offers' : List Offer)
    (h : essence offers = essence offers') :
    (rate services mode k offers).medianPrice = (rate services mode k offers').medianPrice ∧
      (rate services mode k offers).results.map Scored.bare =
        (rate services mode k offers').results.map Scored.bare ∧
      (∀ title ∈ (rate services mode k offers).handed,
        ∃ r ∈ offers, r.handed = title ∧ mayVerdict r.source = true ∧
          mayEmbed r.source = true) ∧
      ∀ title ∈ (rate services mode k offers').handed,
        ∃ r ∈ offers', r.handed = title ∧ mayVerdict r.source = true ∧
          mayEmbed r.source = true := by
  obtain ⟨hmedian, hresults⟩ := rate_essence services mode k offers
  obtain ⟨hmedian', hresults'⟩ := rate_essence services mode k offers'
  refine ⟨?_, ?_, fun _ => scoreOffers_handed_row, fun _ => scoreOffers_handed_row⟩
  · rw [← hmedian, h, hmedian']
  · rw [← hresults, h, hresults']

/-- Best Buy's row with its SKU and its own "was" price next to a cheaper row of an
unknown store, and the bare row alone. -/
theorem rate_blind_radio :
    let shown : List Offer :=
      [⟨⟨{ row "BestBuy" "radio" 40 with sku := some "7", regularPrice := some 90 }, "now"⟩, 0⟩,
        ⟨⟨row "Newcomer" "radio" 10, "now"⟩, 0⟩]
    let alone : List Offer := [⟨⟨row "BestBuy" "radio" 40, "later"⟩, 0⟩]
    (rate plainServices .live 12 shown).medianPrice =
        (rate plainServices .live 12 alone).medianPrice ∧
      (rate plainServices .live 12 shown).results.map Scored.bare =
        (rate plainServices .live 12 alone).results.map Scored.bare := by
  intro shown alone
  have hblind := rate_blind plainServices .live 12 shown alone (by rfl)
  exact ⟨hblind.1, hblind.2.1⟩

end DealFinder.Shop
