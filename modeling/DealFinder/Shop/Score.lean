/-
# Scoring

`score_offers` drops the rows that may not be mixed, rates those whose store
allows it against the market median and a fair price, and sorts by value. The
fair price comes from the category's price model, or else from the prices of the
most similar rows that may be embedded.
-/

import DealFinder.Math.Joined
import DealFinder.Shop.Aggregate
import DealFinder.Shop.Licensing

namespace DealFinder.Shop

open DealFinder.Math

/-- `_MODES`. -/
inductive Mode
  | live
  | check
  deriving DecidableEq

/-- `verdict_mode`, of the variable's value; a value that is not a mode means check. -/
def verdictMode (raw : Option String) : Mode :=
  match raw with
  | none => .live
  | some value => if value = "live" then .live else .check

/-! ## The two signals -/

/-- `DEAL_MEDIAN_FRAC`. -/
def dealMedianFrac : ℚ := 15 / 100

/-- `SUSPICIOUS_RESIDUAL_FRAC`. -/
def suspiciousResidualFrac : ℚ := 70 / 100

/-- `median_signal`. -/
def medianSignal (actual median : ℚ) : ℚ := if median ≤ 0 then 0 else (median - actual) / median

/-- `residual_fraction`. -/
def residualFraction (actual fair : ℚ) : ℚ := if fair ≤ 0 then 0 else (fair - actual) / fair

inductive Verdict
  | deal
  | suspicious
  | fair
  | overpriced
  deriving DecidableEq

/-- `render_badge`. -/
def renderBadge (dealPct residualFrac : ℚ) : Verdict :=
  if dealMedianFrac ≤ dealPct ∧ suspiciousResidualFrac ≤ residualFrac then .suspicious
  else if dealMedianFrac ≤ dealPct then .deal
  else if dealPct < 0 then .overpriced
  else .fair

/-- Where a fair price comes from. -/
inductive Basis
  | model
  | peers
  deriving DecidableEq

/-- `NOT_RATED_REASON`. -/
def notRatedReason : String := "Not rated: this store's terms don't allow price ratings."

/-- `CHECK_MODE_REASON`. -/
def checkModeReason : String :=
  "Ratings are off for store listings. Use Check a deal to rate a price you found."

/-- `deal_reason`. -/
def dealReason (verdict : Option Verdict) (m : ℚ) (fair : Option ℚ) (basis : Option Basis) :
    String :=
  let pct := toString (roundHalfEven (m * 100))
  let src := if basis = some .model then "the price model" else "similar offers"
  let ref := match fair with
    | some value => if value = 0 then "the estimate" else "~$" ++ fixed 0 value
    | none => "the estimate"
  match verdict with
  | none => "Ranked by value only — too few similar offers to estimate a fair price."
  | some .deal =>
      pct ++ "% under the median and consistent with " ++ src ++ " (" ++ ref ++
        ") — a genuine deal."
  | some .suspicious =>
      "Looks " ++ pct ++ "% under the median, but far below " ++ src ++ " (" ++ ref ++
        ") — too good to be true (likely an accessory or a mislisting)."
  | some .overpriced => "Above the market median and above " ++ src ++ " (" ++ ref ++ ")."
  | some .fair => "Near the market median and " ++ src ++ " (" ++ ref ++ ")."

/-! ## Rows -/

/-- A row in the contract shape. -/
structure Scored where
  id : String
  sku : Option String
  slug : Option String
  title : String
  brand : Option String
  price : ℚ
  regularPrice : Option ℚ
  source : String
  verdict : Option Verdict
  pctUnderMedian : Option ℚ
  fair : Option ℚ
  residualFrac : Option ℚ
  basis : Option Basis
  category : Option String
  reason : String
  url : String
  imageUrl : Option String
  fetchedAt : String
  deriving DecidableEq

/-- `re.sub(r"[^a-z0-9]+", "-", text).strip("-")`. -/
def hyphenated (text : String) : List Char :=
  trim '-' (collapse isTokenChar '-' false text.toList)

/-- At most 60 characters, cut at a hyphen when there is one. -/
def cutWords (words : List Char) : List Char :=
  if words.length ≤ 60 then words
  else
    let cut := words.take 61
    let kept :=
      if '-' ∈ cut then ((cut.reverse.dropWhile (· ≠ '-')).drop 1).reverse else words.take 60
    ((kept.dropWhile (· = '-')).reverse.dropWhile (· = '-')).reverse

section Scoring

variable (services : Services)

/-- `offer_slug`. -/
def offerSlug (title : String) (sku : Option String) : Option String :=
  match sku with
  | none => none
  | some sku =>
      if sku = "" then none
      else
        let words := cutWords (hyphenated (services.lower (services.asciiFold title)))
        let tail := "bestbuy-" ++ String.ofList (hyphenated (services.lower sku))
        some (if words = [] then tail else String.ofList words ++ "-" ++ tail)

/-- `_unrated`: a row with every price signal empty. -/
def unrated (r : Listing) (reason : String) (category : Option String) : Scored where
  id := r.id
  sku := r.sku
  slug := offerSlug services r.title r.sku
  title := r.title
  brand := r.brand
  price := roundTo 2 r.price
  regularPrice := r.regularPrice
  source := r.source
  verdict := none
  pctUnderMedian := none
  fair := none
  residualFrac := none
  basis := none
  category := category
  reason := reason
  url := r.url
  imageUrl := r.imageUrl
  fetchedAt := r.fetchedAt

/-! ## Fair prices -/

/-- The median price of the most similar rows, when there are two or more. -/
def peerFair (offers : List Listing) (i : ℕ) : Option ℚ :=
  match offers[i]? with
  | none => none
  | some offer =>
      let order := services.argsort
        (offers.map fun other => -services.similarity offer.title other.title)
      let nbrs := (order.filter fun j => j ≠ i).take 5
      if 2 ≤ nbrs.length then
        some (median (nbrs.filterMap fun j => offers[j]?.map fun other => other.price))
      else none

/-- `peer_fair_prices`: the estimates, and what was handed to the embedding model. -/
def peerFairPrices (offers : List Listing) : (ℕ → Option ℚ) × List Handed :=
  if offers.length < 3 then (fun _ => none, [])
  else (peerFair services offers, offers.map fun offer => offer.handed)

/-- `CATEGORY_CODES`. -/
def categoryCodes : List (String × ℚ) :=
  [("accessories", 0), ("peripherals", 1), ("storage", 2), ("audio", 3), ("smart-home", 4),
    ("wearables", 5), ("mobile", 6), ("components", 7), ("displays", 8), ("computers", 9),
    ("misc", 10)]

/-- `featurize`, of a new product with a category. -/
def featurize (category title : String) : List ℚ :=
  [(categoryCodes.lookup (services.lower (strip category))).getD 10, services.brandTier title, 2]

/-- The fair price of a row and where it comes from. -/
def fairPrice (r : Listing) (peer : Option ℚ) : Option (ℚ × Basis) :=
  match (services.guessCategory r.title).bind fun category =>
      (services.models category).map fun model => model (featurize services category r.title) with
  | some fair => some (fair, .model)
  | none => (peer.filter fun fair => 0 < fair).map fun fair => (fair, .peers)

/-- The body of the loop of `score_offers`. -/
def scoreRow (median : ℚ) (r : Listing) (peer : Option ℚ) : Scored :=
  let category := services.guessCategory r.title
  if mayVerdict r.source then
    let m := if median = 0 then 0 else medianSignal r.price median
    let fair := fairPrice services r peer
    let rf := fair.map fun fair => residualFraction r.price fair.1
    let verdict := rf.map (renderBadge m)
    let reason := dealReason verdict m (fair.map Prod.fst) (fair.map Prod.snd)
    { unrated services r reason category with
      verdict := verdict
      pctUnderMedian := some (roundTo 1 (m * 100))
      fair := fair.map fun fair => roundTo 2 fair.1
      residualFrac := rf.map (roundTo 3)
      basis := fair.map Prod.snd }
  else unrated services r notRatedReason category

/-- `_value`. -/
def value (x : Scored) : ℚ :=
  let s := x.pctUnderMedian.getD 0 / 100
  match x.verdict with
  | some .suspicious => s - 1
  | some .overpriced => s - 1 / 2
  | _ => s

/-- The places of the rows that may be rated and embedded. -/
def peerPlaces (rows : List Listing) : List ℕ :=
  (List.range rows.length).filter fun i =>
    rows[i]?.any fun r => mayVerdict r.source && mayEmbed r.source

/-- Rate the rows that may be mixed, in live mode. -/
def scoreLive (rows : List Listing) (median : ℚ) : List Scored × List Handed :=
  let peerIdx := peerPlaces rows
  let (peers, handed) := peerFairPrices services (peerIdx.filterMap fun i => rows[i]?)
  let scored := rows.zipIdx.map fun (r, i) =>
    scoreRow services median r (if i ∈ peerIdx then peers (peerIdx.idxOf i) else none)
  (scored.insertionSort fun x y => value y ≤ value x, handed)

/-- `score_offers`: it reads all of a result row but its `deal_pct`. -/
def scoreOffers (mode : Mode) (offers : List Offer) (median : ℚ) : List Scored × List Handed :=
  let rows := (offers.map Offer.toListing).filter fun r => mayComingle r.source
  match mode with
  | .check =>
      (rows.map fun r => unrated services r checkModeReason (services.guessCategory r.title), [])
  | .live => scoreLive services rows median

end Scoring

/-! ## A scored row -/

section Row

variable {services : Services} {median : ℚ} {r : Listing} {peer : Option ℚ}

/-- `m`, in `score_offers`. -/
def marketSignal (median price : ℚ) : ℚ := if median = 0 then 0 else medianSignal price median

/-- The price signals of a row that may be rated. -/
theorem scoreRow_of_rated (services : Services) (median : ℚ) (peer : Option ℚ)
    (h : mayVerdict r.source = true) :
    (scoreRow services median r peer).verdict =
        (fairPrice services r peer).map (fun fair =>
          renderBadge (marketSignal median r.price) (residualFraction r.price fair.1)) ∧
      (scoreRow services median r peer).pctUnderMedian =
        some (roundTo 1 (marketSignal median r.price * 100)) ∧
      (scoreRow services median r peer).fair =
        (fairPrice services r peer).map (fun fair => roundTo 2 fair.1) ∧
      (scoreRow services median r peer).basis = (fairPrice services r peer).map Prod.snd := by
  rw [scoreRow, if_pos h]
  exact ⟨Option.map_map _ _ _, rfl, rfl, rfl⟩

theorem scoreRow_of_unrated (h : ¬ mayVerdict r.source = true) :
    scoreRow services median r peer =
      unrated services r notRatedReason (services.guessCategory r.title) := if_neg h

end Row

/-! ## What is handed to the model -/

/-- The peer estimate hands over rows that may be embedded, and in check mode none. -/
theorem scoreOffers_handed {services : Services} {mode : Mode} {offers : List Offer} {median : ℚ}
    {title : Handed} (h : title ∈ (scoreOffers services mode offers median).2) :
    mode = .live ∧ mayEmbed title.source = true := by
  cases mode with
  | check => cases h
  | live =>
      refine ⟨rfl, ?_⟩
      simp only [scoreOffers, scoreLive, peerFairPrices] at h
      split_ifs at h with hfew
      · cases h
      · obtain ⟨r, hr, rfl⟩ := List.mem_map.1 h
        obtain ⟨i, hi, hplace⟩ := List.mem_filterMap.1 hr
        have hallowed := (List.mem_filter.1 hi).2
        rw [hplace, Option.any_some, Bool.and_eq_true] at hallowed
        exact hallowed.2

end DealFinder.Shop
