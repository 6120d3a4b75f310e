/-
# eBay's listings as the box reads them

The box is modelled over listings that are parsed (`Cache.Summary`), and the connector over
the body of the answer. Where the body holds the listings of summaries the two searches
return the same products (`ebaySearch_eq_search`).
-/

import DealFinder.Cache.Ebay
import DealFinder.Feeds.Sources

namespace DealFinder.Feeds

open DealFinder.Math DealFinder.Rag

/-- A field that may be missing. -/
def optional : Option String → Json
  | none => .null
  | some s => .str s

/-- A listing that a summary describes. -/
structure Summarizes (runtime : Runtime) (it : Json) (s : Cache.Summary) : Prop where
  itemId : (it.getD "itemId" (.str "")).map (strOf runtime) = some s.itemId
  title : it.get "title" = some (optional s.title)
  price : ∃ price value, it.get "price" = some price ∧ price.getIn "value" = some value ∧
    f runtime value = s.price.map Double.finite ∧
    (price.orElse (.obj [])).getD "currency" (.str "USD") =
      some (.str (s.currency.getD "USD"))
  condition : it.get "condition" = some (optional s.condition)
  itemWebUrl : it.get "itemWebUrl" = some (optional s.itemWebUrl)
  imageUrl : ∃ image, it.get "image" = some image ∧
    image.getIn "imageUrl" = some (optional s.imageUrl)

/-- A product of the box as one of a connector. -/
def liveOf (p : Features.Product) : LiveProduct where
  id := p.id
  title := p.title
  brand := p.brand
  category := p.category
  price := .finite p.price
  currency := p.currency
  url := p.url
  source := p.source
  imageUrl := p.imageUrl

section Fields

variable (s : Option String)

theorem orElse_optional (default : String) :
    (optional s).orElse (.str default) = .str (Cache.orDefault s default) := by
  cases s with
  | none => rfl
  | some text =>
      by_cases htext : text = ""
      · simp [optional, Json.orElse, Json.truthy, Cache.orDefault, Option.filter_some, htext]
      · simp [optional, Json.orElse, Json.truthy, Cache.orDefault, Option.filter_some, htext]

theorem strOf_str (runtime : Runtime) (text : String) : strOf runtime (.str text) = text := rfl

theorem asStrOrNone_optional : (optional s).asStrOrNone = some s := by
  cases s <;> rfl

theorem titleOf_optional (fallback : String) :
    titleOf (optional s) fallback = some (clip 120 (Cache.orDefault s fallback)) := by
  cases s with
  | none => rfl
  | some text =>
      by_cases htext : text = ""
      · simp [optional, titleOf, Json.truthy, Cache.orDefault, Option.filter_some, htext]
      · simp [optional, titleOf, Json.truthy, Json.asStr, Cache.orDefault, Option.filter_some, htext]

end Fields

section Search

variable {runtime : Runtime} {query : String}

theorem priced_map_finite (price : Option ℚ) :
    priced (price.map Double.finite) =
      (price.filter fun price => price ≠ 0).map Double.finite := by
  cases price with
  | none => rfl
  | some x => by_cases hx : x = 0 <;> simp [priced, Double.truthy, Option.filter_some, hx]

/-- The connector makes of a listing what the box makes of its summary. -/
theorem ebayOffer_of_summarizes {it : Json} {s : Cache.Summary}
    (h : Summarizes runtime it s) :
    ebayOffer runtime query it = some ((Cache.productOf query s).map liveOf) := by
  obtain ⟨price, value, hprice, hvalue, hf, hcurrency⟩ := h.price
  obtain ⟨image, himage, himageUrl⟩ := h.imageUrl
  obtain ⟨itemId, hitemId, hid⟩ := Option.map_eq_some_iff.1 h.itemId
  have hread : ebayPrice runtime it =
      some ((s.price.filter fun price => price ≠ 0).map Double.finite) := by
    simp [ebayPrice, hprice, hvalue, hf, priced_map_finite]
  rw [Cache.productOf]
  unfold ebayOffer
  rw [hread]
  cases s.price.filter fun price => price ≠ 0 with
  | none => rfl
  | some x =>
      simp [h.condition, hitemId, h.title, hprice, hcurrency, h.itemWebUrl, himage, himageUrl,
        hid, orElse_optional, asStrOrNone_optional, titleOf_optional, Json.asStr, strOf_str, liveOf,
        clip]
      rw [String.length_toList]

/-- Of listings that are summarized every one can be read. -/
theorem offersOf_of_summarizes {items : List Json} {summaries : List Cache.Summary}
    (h : List.Forall₂ (Summarizes runtime) items summaries) :
    offersOf (ebayOffer runtime query) items =
      some ((summaries.filterMap (Cache.productOf query)).map liveOf) := by
  induction h with
  | nil => rfl
  | @cons it s items summaries hfirst _ ih =>
      rw [offersOf, ebayOffer_of_summarizes hfirst, ih, List.filterMap_cons]
      cases Cache.productOf query s <;> rfl

/-- The connector and the box read the same products in the same answer. -/
theorem ebaySearch_eq_search {env : Cache.EbayEnv} {items : List Json}
    {summaries : List Cache.Summary} {body : Json} (status : ℕ)
    (hbody : body.get "itemSummaries" = some (.arr items))
    (h : List.Forall₂ (Summarizes runtime) items summaries) :
    ebaySearch runtime query env.available true (.answered status (some body)) =
      (Cache.search env query (.answered status summaries)).map (List.map liveOf) := by
  have hlistings : ebayListings (.answered status (some body)) =
      if status ≠ 200 then some [] else some items := by
    have hiterate : ((Json.arr items).orElse (.arr [])).iterate = some items := by
      cases items <;> rfl
    simp [ebayListings, hbody, hiterate]
  unfold ebaySearch Cache.search
  rw [hlistings]
  by_cases hstatus : status ≠ 200
  · rw [if_pos hstatus]
    cases env.available <;> simp [hstatus, offersOf]
  · rw [if_neg hstatus]
    cases env.available <;> simp [hstatus, offersOf_of_summarizes h]

end Search

end DealFinder.Feeds
