/-
# The search endpoints

`shop_search` and `/ranked` aggregate, score and truncate; afterwards both
remember the offers they showed. eBay's own box is fetched apart from the sources
and joined to the response unseen, and it is left out here.
-/

import DealFinder.Shop.Score

namespace DealFinder.Shop

open DealFinder.Math

/-- `attribution_for`, of the sources of the rows. -/
def attributionFor (sources : List String) : List Attribution :=
  sources.foldl (fun out source =>
    match (policyFor source).bind SourcePolicy.attribution with
    | some attribution => if attribution ∈ out then out else out ++ [attribution]
    | none => out) []

/-- The response of `/search`. -/
structure Response where
  query : String
  mode : Mode
  count : ℕ
  medianPrice : Option ℚ
  fetchedAt : String
  results : List Scored
  attribution : List Attribution
  degraded : Bool
  deriving DecidableEq

/-- The response of `/ranked`. -/
structure Ranked where
  query : String
  count : ℕ
  medianPrice : Option ℚ
  attribution : List Attribution
  sourcesLive : List String
  residualThreshold : ℚ
  modeled : ℕ
  estimated : ℕ
  results : List Scored
  deriving DecidableEq

section Endpoints

variable (services : Services) (settings : Settings) (mode : Mode)

/-- The market median, over the rows that may be rated. -/
def ratedMedian (offers : List Offer) : ℚ :=
  medianOrZero ((offers.filter fun r => mayVerdict r.source).map fun r => r.price)

/-- `median_price`: a median is a price signal too. -/
def shownMedian (median : ℚ) : Option ℚ := if mode = .check then none else some (roundTo 2 median)

/-- `shop_search`: the response, and what was handed to the embedding model. -/
def shopSearch (now : String) (k : ℕ) (query : String) (sources : List Source) :
    Response × List Handed :=
  let (result, deduped) := aggregate services settings query sources
  let median := ratedMedian result.results
  let (scored, compared) := scoreOffers services mode result.results median
  let results := scored.take k
  ({ query := query
     mode := mode
     count := results.length
     medianPrice := shownMedian mode median
     fetchedAt := now
     results := results
     attribution := attributionFor (results.map fun r => r.source)
     degraded := !result.timedOut.isEmpty || !result.throttled.isEmpty ||
       !result.benched.isEmpty }, deduped ++ compared)

/-- `/ranked`: the response, and what was handed to the embedding model. -/
def ranked (k : ℕ) (query : String) (sources : List Source) : Ranked × List Handed :=
  let (result, deduped) := aggregate services settings query sources
  let median := ratedMedian result.results
  let (scored, compared) := scoreOffers services mode result.results median
  let results := scored.take k
  ({ query := query
     count := results.length
     medianPrice := shownMedian mode median
     attribution := attributionFor (results.map fun r => r.source)
     sourcesLive := result.sourcesLive
     residualThreshold := suspiciousResidualFrac
     modeled := results.countP fun r => r.basis = some .model
     estimated := results.countP fun r => r.basis = some .peers
     results := results }, deduped ++ compared)

/-- `_remember_offers`: what it hands to the embedding model. -/
def rememberOffers (db : Bool) (results : List Scored) : List Handed :=
  if db = false ∨ results = [] then []
  else if mode = .check then []
  else (results.filter fun r => mayEmbed r.source).map fun r => ⟨r.title, r.source⟩

/-- The endpoints that search the live sources. -/
inductive Endpoint
  | search
  | ranked

/-- A request and its background task: all that is handed to the embedding model. -/
def handedBy (endpoint : Endpoint) (db : Bool) (now : String) (k : ℕ) (query : String)
    (sources : List Source) : List Handed :=
  match endpoint with
  | .search =>
      let (response, handed) := shopSearch services settings mode now k query sources
      handed ++ rememberOffers mode db response.results
  | .ranked =>
      let (response, handed) := ranked services settings mode k query sources
      handed ++ rememberOffers mode db response.results

end Endpoints

/-- Remembering hands over rows that may be embedded, and in check mode none. -/
theorem rememberOffers_handed {mode : Mode} {db : Bool} {results : List Scored} {title : Handed}
    (h : title ∈ rememberOffers mode db results) :
    mode = .live ∧ mayEmbed title.source = true := by
  unfold rememberOffers at h
  split_ifs at h with hoff hcheck
  · cases h
  · cases h
  · obtain ⟨r, hr, rfl⟩ := List.mem_map.1 h
    refine ⟨?_, (List.mem_filter.1 hr).2⟩
    cases mode with
    | live => rfl
    | check => exact absurd rfl hcheck

/-- A request hands over what `aggregate` does, and beyond it only what its licence
and the mode allow. -/
theorem handedBy_eq (services : Services) (settings : Settings) (mode : Mode) (endpoint : Endpoint)
    (db : Bool) (now : String) (k : ℕ) (query : String) (sources : List Source) :
    ∃ more, handedBy services settings mode endpoint db now k query sources =
        (aggregate services settings query sources).2 ++ more ∧
      ∀ title ∈ more, mode = .live ∧ mayEmbed title.source = true := by
  cases endpoint with
  | search =>
      refine ⟨_, List.append_assoc .., fun title htitle => ?_⟩
      rcases List.mem_append.1 htitle with hscored | hremembered
      · exact scoreOffers_handed hscored
      · exact rememberOffers_handed hremembered
  | ranked =>
      refine ⟨_, List.append_assoc .., fun title htitle => ?_⟩
      rcases List.mem_append.1 htitle with hscored | hremembered
      · exact scoreOffers_handed hscored
      · exact rememberOffers_handed hremembered

/-! ## A small shop -/

/-- Titles in lower case; equal ones are alike, and no category has a model. -/
def plainServices : Services where
  lower := id
  asciiFold := id
  cosine := fun title title' => if title = title' then 1 else 0
  similarity := fun title title' => if title = title' then 1 else 0
  argsort := fun keys => (List.range keys.length).insertionSort fun i j =>
    keys.getD i 0 ≤ keys.getD j 0
  guessCategory := fun _ => none
  brandTier := fun _ => 1
  models := fun _ => none

/-- The settings of the service, with no source benched. -/
def usual : Settings := ⟨24, 12, fun _ => false⟩

/-- A row without a brand. -/
def row (source title : String) (price : ℚ) : Product :=
  ⟨title, title, none, price, "", source, none, none, none⟩

/-- A source of the first tier that answers every query with some rows. -/
def steady (name : String) (products : List Product) : Source :=
  ⟨name, true, some 1, none, fun _ => .found products "2026-10-26T12:00:00Z"⟩

end DealFinder.Shop
