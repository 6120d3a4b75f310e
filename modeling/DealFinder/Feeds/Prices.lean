/-
# Usable prices

Every connector reads a price with the number that `float` makes of a text, and lets it pass
by a test of its own. A NaN passes all of these but one, an infinity and a number below zero
most of them, so that a product has a usable price exactly if its listing does not spell one
of those that its connector lets slip (`usable_iff_not_slips`).
-/

import DealFinder.Feeds.Lookup

namespace DealFinder.Feeds

open DealFinder.Math DealFinder.Rag

/-- The connectors. -/
inductive Source
  | itunes | rapidApi | apify | amazon | ebay | bestBuy | shopify | firecrawl
  deriving DecidableEq

namespace Source

/-- The number that a connector reads in a listing as its price. -/
def number (runtime : Runtime) (source : Source) (it : Json) : Option Double := do
  match source with
  | itunes => f runtime (← it.getOr "trackPrice" "collectionPrice")
  | rapidApi => f runtime (← it.get "price")
  | apify =>
      let numeric ← it.get "priceNumeric"
      if numeric.truthy then floatOf runtime numeric else f runtime (← it.get "price")
  | amazon => f runtime (← amazonValue ((← it.get "price").orElse (.obj [])))
  | ebay => f runtime (← (← it.get "price").getIn "value")
  | bestBuy => f runtime (← it.get "salePrice")
  | shopify => f runtime (← (← (← it.get "variants").firstOr (.obj [])).get "price")
  | firecrawl =>
      let description ← ((← it.get "description").orElse (.str "")).asStr
      let (group, _) ← quotedPrice.search (Features.isWord runtime.toUnicode) description.toList
      readPrice runtime (String.ofList group)

/-- What a connector makes of a listing, which for Shopify is one of a store. -/
def offer (runtime : Runtime) (query store : String) : Source → Json → Reading
  | itunes => itunesOffer runtime query
  | rapidApi => rapidApiOffer runtime query
  | apify => apifyOffer runtime query
  | amazon => amazonOffer runtime query
  | ebay => ebayOffer runtime query
  | bestBuy => bestBuyProduct runtime query
  | shopify => shopifyOffer runtime query store
  | firecrawl => firecrawlOffer runtime query

/-- The numbers that pass for a price. -/
def Passes : Source → Double → Prop
  | itunes, x => x.atMost (.finite 0) = false
  | apify, _ => True
  | firecrawl, x => (Double.finite 1).atMost x = true ∧ x.atMost (.finite 100000) = true
  | _, x => x ≠ .finite 0

/-- The price that a connector makes of a number. -/
def priceOf : Source → Double → Double
  | amazon, x => x.roundCents
  | _, x => x

/-- The numbers that pass and are no usable price. -/
def Slips : Source → Double → Prop
  | firecrawl, _ => False
  | _, .nan => True
  | itunes, .inf negative => negative = false
  | _, .inf _ => True
  | itunes, .finite _ => False
  | apify, .finite x => x ≤ 0
  | amazon, .finite x => x ≤ 1 / 200
  | _, .finite x => x < 0

/-- A NaN passes everywhere but where a range is asked for. -/
theorem slips_nan {source : Source} (h : source.Passes .nan) : source.Slips .nan := by
  cases source with
  | firecrawl => cases h.1
  | _ => trivial

theorem slips_inf {source : Source} {negative : Bool} (h : source.Passes (.inf negative)) :
    source.Slips (.inf negative) := by
  cases source with
  | firecrawl =>
      cases negative with
      | false => cases h.2
      | true => cases h.1
  | itunes =>
      cases negative with
      | false => rfl
      | true => cases h
  | _ => trivial

theorem pos_iff_not_slips {source : Source} {x : ℚ} (h : source.Passes (.finite x)) :
    (source.priceOf (.finite x)).Usable ↔ ¬source.Slips (.finite x) := by
  have hzero : (Double.finite x ≠ .finite 0) → (0 < x ↔ ¬x < 0) := by
    intro hne
    have hx : x ≠ 0 := fun hx => hne (by rw [hx])
    exact ⟨fun hpos => hpos.le.not_gt, fun hle => (not_lt.1 hle).lt_of_ne' hx⟩
  cases source with
  | itunes =>
      have hpos : 0 < x := by simpa [Passes] using h
      exact ⟨fun _ => not_false, fun _ => hpos⟩
  | firecrawl =>
      have hone : 1 ≤ x := by simpa [Passes] using h.1
      exact ⟨fun _ => not_false, fun _ => lt_of_lt_of_le one_pos hone⟩
  | apify => exact not_le.symm
  | amazon =>
      have hround : 0 < Shop.roundTo 2 x ↔ 1 / 200 < x := by
        rw [Shop.roundTo_pos_iff]
        constructor <;> intro hx <;> linarith
      exact hround.trans not_le.symm
  | rapidApi => exact hzero h
  | ebay => exact hzero h
  | bestBuy => exact hzero h
  | shopify => exact hzero h

/-- A number that passes makes a usable price, unless it is one of those that slip. -/
theorem usable_priceOf_iff {source : Source} {x : Double} (h : source.Passes x) :
    (source.priceOf x).Usable ↔ ¬source.Slips x := by
  cases x with
  | nan => exact ⟨fun hx => by cases source <;> exact hx.elim, fun hx => absurd (slips_nan h) hx⟩
  | inf negative =>
      exact ⟨fun hx => by cases source <;> exact hx.elim, fun hx => absurd (slips_inf h) hx⟩
  | finite x => exact pos_iff_not_slips h

end Source

/-! ## What a listing sells for -/

section Listings

variable {runtime : Runtime} {query : String} {it : Json}

/-- A product is priced by a number that passes. -/
def PricedBy (runtime : Runtime) (source : Source) (it : Json) (p : LiveProduct) : Prop :=
  ∃ x, source.number runtime it = some x ∧ source.Passes x ∧ p.price = source.priceOf x

/-- A reading that gives products of one price only. -/
def SellsAt (price : Double) (reading : Reading) : Prop :=
  ∀ p, reading = some (some p) → p.price = price

theorem sellsAt_bind {α : Type} {price : Double} {o : Option α} {k : α → Reading}
    (h : ∀ a, SellsAt price (k a)) : SellsAt price (o >>= k) := by
  intro p hp
  obtain ⟨a, -, hk⟩ := Option.bind_eq_some_iff.1 hp
  exact h a p hk

theorem sellsAt_product (p : LiveProduct) : SellsAt p.price (some (some p)) := by
  intro q hq
  rw [Option.some.inj (Option.some.inj hq)]

theorem sellsAt_skipped (price : Double) : SellsAt price (some none) := by
  intro p hp
  cases hp

theorem sellsAt_ite {price : Double} {c : Prop} [Decidable c] {a b : Reading}
    (ha : SellsAt price a) (hb : SellsAt price b) : SellsAt price (if c then a else b) := by
  split
  · exact ha
  · exact hb

/-- A product of a priced listing is priced by the number of the listing. -/
theorem pricedBy_of_price {source : Source} {price : Option (Option Double)}
    {rest : Option Double → Reading} {p : LiveProduct}
    (hprice : ∀ x, price = some (some x) →
      source.number runtime it = some x ∧ source.Passes x)
    (hnone : rest none = some none)
    (hrest : ∀ x, SellsAt (source.priceOf x) (rest (some x)))
    (h : (price >>= rest) = some (some p)) : PricedBy runtime source it p := by
  obtain ⟨found, hfound, hp⟩ := Option.bind_eq_some_iff.1 h
  cases found with
  | none =>
      rw [hnone] at hp
      cases hp
  | some x =>
      obtain ⟨hnumber, hpasses⟩ := hprice x hfound
      exact ⟨x, hnumber, hpasses, hrest x p hp⟩

/-- What is left of a price that is no zero. -/
theorem of_priced {price : Option Double} {x : Double}
    (h : some (priced price) = some (some x)) : price = some x ∧ x ≠ .finite 0 := by
  obtain ⟨hprice, htruthy⟩ := Option.filter_eq_some_iff.1 (Option.some.inj h)
  exact ⟨hprice, by simpa [Double.truthy] using htruthy⟩

theorem itunesPrice_spec {x : Double} (h : itunesPrice runtime it = some (some x)) :
    Source.itunes.number runtime it = some x ∧ Source.itunes.Passes x := by
  obtain ⟨price, hprice, hx⟩ := Option.bind_eq_some_iff.1 h
  obtain ⟨hpriced, hpass⟩ := Option.filter_eq_some_iff.1 (Option.some.inj hx)
  obtain ⟨hf, -⟩ := of_priced (congrArg some hpriced)
  exact ⟨Option.bind_eq_some_iff.2 ⟨price, hprice, hf⟩, by simpa [Source.Passes] using hpass⟩

theorem rapidApiPrice_spec {x : Double} (h : rapidApiPrice runtime it = some (some x)) :
    Source.rapidApi.number runtime it = some x ∧ Source.rapidApi.Passes x := by
  obtain ⟨price, hprice, hx⟩ := Option.bind_eq_some_iff.1 h
  obtain ⟨hf, hzero⟩ := of_priced hx
  exact ⟨Option.bind_eq_some_iff.2 ⟨price, hprice, hf⟩, hzero⟩

theorem bestBuyPrice_spec {x : Double} (h : bestBuyPrice runtime it = some (some x)) :
    Source.bestBuy.number runtime it = some x ∧ Source.bestBuy.Passes x := by
  obtain ⟨price, hprice, hx⟩ := Option.bind_eq_some_iff.1 h
  obtain ⟨hf, hzero⟩ := of_priced hx
  exact ⟨Option.bind_eq_some_iff.2 ⟨price, hprice, hf⟩, hzero⟩

theorem ebayPrice_spec {x : Double} (h : ebayPrice runtime it = some (some x)) :
    Source.ebay.number runtime it = some x ∧ Source.ebay.Passes x := by
  obtain ⟨price, hprice, hvalue⟩ := Option.bind_eq_some_iff.1 h
  obtain ⟨value, hgetIn, hx⟩ := Option.bind_eq_some_iff.1 hvalue
  obtain ⟨hf, hzero⟩ := of_priced hx
  exact ⟨Option.bind_eq_some_iff.2 ⟨price, hprice,
    Option.bind_eq_some_iff.2 ⟨value, hgetIn, hf⟩⟩, hzero⟩

theorem shopifyPrice_spec {x : Double} (h : shopifyPrice runtime query it = some (some x)) :
    Source.shopify.number runtime it = some x ∧ Source.shopify.Passes x := by
  unfold shopifyPrice at h
  obtain ⟨title, -, h⟩ := Option.bind_eq_some_iff.1 h
  obtain ⟨productType, -, h⟩ := Option.bind_eq_some_iff.1 h
  obtain ⟨tags, -, h⟩ := Option.bind_eq_some_iff.1 h
  dsimp only at h
  split at h
  · cases h
  · obtain ⟨variants, hvariants, h⟩ := Option.bind_eq_some_iff.1 h
    obtain ⟨variant, hvariant, h⟩ := Option.bind_eq_some_iff.1 h
    obtain ⟨price, hprice, hx⟩ := Option.bind_eq_some_iff.1 h
    obtain ⟨hf, hzero⟩ := of_priced hx
    exact ⟨Option.bind_eq_some_iff.2 ⟨variants, hvariants, Option.bind_eq_some_iff.2
      ⟨variant, hvariant, Option.bind_eq_some_iff.2 ⟨price, hprice, hf⟩⟩⟩, hzero⟩

theorem apifyPrice_spec {x : Double} (h : apifyPrice runtime it = some (some x)) :
    Source.apify.number runtime it = some x ∧ Source.apify.Passes x := by
  unfold apifyPrice at h
  obtain ⟨numeric, hnumeric, h⟩ := Option.bind_eq_some_iff.1 h
  obtain ⟨price, hprice, h⟩ := Option.bind_eq_some_iff.1 h
  refine ⟨Option.bind_eq_some_iff.2 ⟨numeric, hnumeric, ?_⟩, trivial⟩
  split at h
  · cases h
  · obtain ⟨currency, -, h⟩ := Option.bind_eq_some_iff.1 h
    obtain ⟨code, -, h⟩ := Option.bind_eq_some_iff.1 h
    split at h
    · cases h
    · split at h
      · rename_i htruthy
        obtain ⟨value, hvalue, hx⟩ := Option.bind_eq_some_iff.1 h
        obtain rfl := Option.some.inj (Option.some.inj hx)
        rw [if_pos htruthy]
        exact hvalue
      · rename_i htruthy
        rw [if_neg htruthy]
        exact Option.bind_eq_some_iff.2 ⟨price, hprice, (of_priced h).1⟩

theorem amazonPrice_spec {x : Double} (h : amazonPrice runtime it = some (some x)) :
    Source.amazon.number runtime it = some x ∧ Source.amazon.Passes x := by
  unfold amazonPrice at h
  obtain ⟨price, hprice, h⟩ := Option.bind_eq_some_iff.1 h
  obtain ⟨value, hvalue, h⟩ := Option.bind_eq_some_iff.1 h
  cases hpriced : priced (f runtime value) with
  | none =>
      rw [hpriced] at h
      cases h
  | some number =>
      rw [hpriced] at h
      obtain ⟨currency, -, h⟩ := Option.bind_eq_some_iff.1 h
      obtain ⟨hf, hzero⟩ := of_priced (congrArg some hpriced)
      have hnumber : number = x := by
        split at h
        · split_ifs at h
          · exact Option.some.inj (Option.some.inj h)
          · cases h
        · cases h
      obtain rfl := hnumber
      exact ⟨Option.bind_eq_some_iff.2 ⟨price, hprice,
        Option.bind_eq_some_iff.2 ⟨value, hvalue, hf⟩⟩, hzero⟩

theorem firecrawlPrice_spec {x : Double} (h : firecrawlPrice runtime it = some (some x)) :
    Source.firecrawl.number runtime it = some x ∧ Source.firecrawl.Passes x := by
  obtain ⟨value, hvalue, h⟩ := Option.bind_eq_some_iff.1 h
  obtain ⟨text, htext, h⟩ := Option.bind_eq_some_iff.1 h
  obtain ⟨hpriced, hpass⟩ := Option.filter_eq_some_iff.1 (Option.some.inj h)
  obtain ⟨hfound, -⟩ := of_priced (congrArg some hpriced)
  obtain ⟨found, hsearch, hf⟩ := Option.bind_eq_some_iff.1 hfound
  exact ⟨Option.bind_eq_some_iff.2 ⟨value, hvalue, Option.bind_eq_some_iff.2 ⟨text, htext,
    Option.bind_eq_some_iff.2 ⟨found, hsearch, hf⟩⟩⟩, by simpa [Source.Passes] using hpass⟩

/-- A product is priced by the number of its listing, whatever the connector. -/
theorem pricedBy_of_offer {source : Source} {store : String} {p : LiveProduct}
    (h : source.offer runtime query store it = some (some p)) : PricedBy runtime source it p := by
  cases source with
  | itunes =>
      refine pricedBy_of_price (fun x => itunesPrice_spec) rfl (fun x => ?_) h
      repeat refine sellsAt_bind fun _ => ?_
      exact sellsAt_product _
  | rapidApi =>
      refine pricedBy_of_price (fun x => rapidApiPrice_spec) rfl (fun x => ?_) h
      repeat refine sellsAt_bind fun _ => ?_
      exact sellsAt_product _
  | apify =>
      refine pricedBy_of_price (fun x => apifyPrice_spec) rfl (fun x => ?_) h
      repeat refine sellsAt_bind fun _ => ?_
      exact sellsAt_product _
  | amazon =>
      refine pricedBy_of_price (fun x => amazonPrice_spec) rfl (fun x => ?_) h
      repeat refine sellsAt_bind fun _ => ?_
      exact sellsAt_product _
  | ebay =>
      refine pricedBy_of_price (fun x => ebayPrice_spec) rfl (fun x => ?_) h
      repeat refine sellsAt_bind fun _ => ?_
      exact sellsAt_product _
  | bestBuy =>
      refine pricedBy_of_price (fun x => bestBuyPrice_spec) rfl (fun x => ?_) h
      refine sellsAt_bind fun reg => sellsAt_ite ?_ ?_
      all_goals
        repeat refine sellsAt_bind fun _ => ?_
        exact sellsAt_product _
  | shopify =>
      refine pricedBy_of_price (fun x => shopifyPrice_spec) rfl (fun x => ?_) h
      repeat refine sellsAt_bind fun _ => ?_
      exact sellsAt_product _
  | firecrawl =>
      refine pricedBy_of_price (fun x => firecrawlPrice_spec) rfl (fun x => ?_) h
      repeat refine sellsAt_bind fun _ => ?_
      refine sellsAt_ite (sellsAt_skipped x) ?_
      repeat refine sellsAt_bind fun _ => ?_
      exact sellsAt_product _

end Listings

/-! ## Calls -/

/-- A call of a connector, with what becomes of its requests. -/
inductive Call
  | itunes (query : String) (outcome : Outcome)
  | rapidApi (configured : Bool) (query : String) (outcome : Outcome)
  | apify (configured : Bool) (query : String) (outcome : Outcome)
  | amazon (configured : Bool) (query : String) (outcome : Outcome)
  | ebay (configured token : Bool) (query : String) (outcome : Outcome)
  | bestBuy (configured : Bool) (query : String) (outcome : Outcome)
  | lookup (key : Option String) (outcomes : ℕ → Outcome) (skus : List String)
  | shopify (limit : ℤ) (query : String) (stores : List (String × Outcome))
  | firecrawl (configured : Bool) (query : String) (outcome : Outcome)

/-- A listing that becomes a product of a search: no listing raises, and this one is not
skipped. -/
def Kept (offer : Json → Reading) (listings : Option (List Json)) (it : Json) : Prop :=
  ∃ items, listings = some items ∧ (∀ other ∈ items, (offer other).isSome = true) ∧
    it ∈ items ∧ offer it ≠ some none

/-- A listing that becomes a product of a store, of which some were found: the ones before it
do not raise and leave room for it. -/
def Reached (offer : Json → Reading) (limit : ℤ) (found : ℕ) (items : List Json) (it : Json) :
    Prop :=
  ∃ before after, items = before ++ it :: after ∧
    (∀ other ∈ before, (offer other).isSome = true) ∧
    (offer it).isSome = true ∧ offer it ≠ some none ∧
    ((before.filterMap fun other => (offer other).join) = [] ∨
      (found + (before.filterMap fun other => (offer other).join).length : ℕ) < limit)

section Calls

variable (runtime : Runtime)

/-- The SKU of a priced listing. -/
def skuIn (it : Json) : Option String :=
  ((bestBuyProduct runtime "" it).join.bind keyed).map Prod.fst

/-- The listings of a lookup. -/
def lookupListings (outcomes : ℕ → Outcome) (skus : List String) : List Json :=
  (List.range (batches (wanted skus)).length).flatMap fun i =>
    (productsIn (outcomes i).json).getD []

namespace Call

/-- The connector that is called. -/
def source : Call → Source
  | itunes .. => .itunes
  | rapidApi .. => .rapidApi
  | apify .. => .apify
  | amazon .. => .amazon
  | ebay .. => .ebay
  | bestBuy .. => .bestBuy
  | lookup .. => .bestBuy
  | shopify .. => .shopify
  | firecrawl .. => .firecrawl

/-- The products that a call returns, none if it raises. -/
def yields : Call → List LiveProduct
  | itunes query outcome => (itunesSearch runtime query outcome).getD []
  | rapidApi configured query outcome => (rapidApiSearch runtime query configured outcome).getD []
  | apify configured query outcome => (apifySearch runtime query configured outcome).getD []
  | amazon configured query outcome => (amazonSearch runtime query configured outcome).getD []
  | ebay configured token query outcome =>
      (ebaySearch runtime query configured token outcome).getD []
  | bestBuy configured query outcome => (bestBuySearch runtime query configured outcome).getD []
  | lookup key outcomes skus =>
      match (lookupSkus runtime key outcomes skus).result with
      | .ok found => found.values
      | .error _ => []
  | shopify limit query stores => shopifySearch runtime query limit stores
  | firecrawl configured query outcome =>
      (firecrawlSearch runtime query configured outcome).getD []

/-- The listings that become the products of a call. -/
def Takes : Call → Json → Prop
  | itunes query outcome, it => Kept (itunesOffer runtime query) (itunesListings outcome) it
  | rapidApi configured query outcome, it =>
      configured = true ∧ Kept (rapidApiOffer runtime query) (rapidApiListings outcome) it
  | apify configured query outcome, it =>
      configured = true ∧ Kept (apifyOffer runtime query) (actorListings outcome) it
  | amazon configured query outcome, it =>
      configured = true ∧ Kept (amazonOffer runtime query) (actorListings outcome) it
  | ebay configured token query outcome, it =>
      (configured && token) = true ∧ Kept (ebayOffer runtime query) (ebayListings outcome) it
  | bestBuy configured query outcome, it =>
      (configured && !((queryTokens runtime query 1).take 6).isEmpty) = true ∧
        Kept (bestBuyProduct runtime query) (bestBuyListings outcome) it
  | lookup key outcomes skus, it =>
      key.all (fun key => key = "") = false ∧ (∀ s ∈ skus, isSku runtime s = true) ∧
        (∀ i < (batches (wanted skus)).length, Readable runtime (outcomes i)) ∧
        -- Of the priced listings with an SKU the last one counts.
        ∃ sku, ((lookupListings outcomes skus).reverse.find? fun other =>
          skuIn runtime other = some sku) = some it
  | shopify limit query stores, it =>
      ∃ store ∈ stores,
        Reached (shopifyOffer runtime query store.1) limit 0 (storeListings store.2) it
  | firecrawl configured query outcome, it =>
      configured = true ∧ Kept (firecrawlOffer runtime query) (firecrawlListings outcome) it

end Call

end Calls

/-! ## Where the products of a call come from -/

section Origins

variable {runtime : Runtime} {source : Source} {query store : String}

variable (runtime source) in
/-- Products that are those of some listings. -/
structure PricedFrom (products : List LiveProduct) (taken : Json → Prop) : Prop where
  traced : ∀ p ∈ products, ∃ it, taken it ∧ PricedBy runtime source it p
  sold : ∀ it, taken it → ∃ p ∈ products, PricedBy runtime source it p

theorem PricedFrom.usable_iff {products : List LiveProduct} {taken : Json → Prop}
    (h : PricedFrom runtime source products taken) :
    (∀ p ∈ products, p.price.Usable) ↔
      ∀ it, taken it → ∀ x, source.number runtime it = some x → ¬source.Slips x := by
  constructor
  · intro husable it hit x hx
    obtain ⟨p, hp, number, hnumber, hpasses, hprice⟩ := h.sold it hit
    obtain rfl := Option.some.inj (hnumber.symm.trans hx)
    rw [← Source.usable_priceOf_iff hpasses, ← hprice]
    exact husable p hp
  · intro hslips p hp
    obtain ⟨it, hit, number, hnumber, hpasses, hprice⟩ := h.traced p hp
    rw [hprice, Source.usable_priceOf_iff hpasses]
    exact hslips it hit number hnumber

theorem PricedFrom.of_empty {taken : Json → Prop} (h : ∀ it, ¬taken it) :
    PricedFrom runtime source [] taken :=
  ⟨fun _ hp => absurd hp List.not_mem_nil, fun it hit => absurd hit (h it)⟩

/-- A search sells the listings it keeps. -/
theorem pricedFrom_kept (listings : Option (List Json)) :
    PricedFrom runtime source
      ((listings >>= offersOf (source.offer runtime query store)).getD [])
      (Kept (source.offer runtime query store) listings) := by
  cases listings with
  | none =>
      apply PricedFrom.of_empty
      intro it hit
      obtain ⟨items, hitems, -⟩ := hit
      cases hitems
  | some items =>
      cases hoffers : offersOf (source.offer runtime query store) items with
      | none =>
          have hempty : ((some items >>= offersOf (source.offer runtime query store)).getD []) =
              [] := by
            change (offersOf (source.offer runtime query store) items).getD [] = []
            rw [hoffers]
            rfl
          rw [hempty]
          apply PricedFrom.of_empty
          intro it hit
          obtain ⟨items', hitems, hread, -⟩ := hit
          obtain rfl := Option.some.inj hitems
          have hsome := offersOf_isSome_iff.2 hread
          rw [hoffers] at hsome
          cases hsome
      | some products =>
          have hproducts : ((some items >>= offersOf (source.offer runtime query store)).getD
              []) = products := by
            change (offersOf (source.offer runtime query store) items).getD [] = products
            rw [hoffers]
            rfl
          have hread := offersOf_isSome_iff.1 (Option.isSome_iff_exists.2 ⟨products, hoffers⟩)
          rw [hproducts, offersOf_eq hoffers]
          constructor
          · intro p hp
            obtain ⟨it, hit, hjoin⟩ := List.mem_filterMap.1 hp
            have hoffer := Option.join_eq_some_iff.1 hjoin
            exact ⟨it, ⟨items, rfl, hread, hit, by rw [hoffer]; simp⟩,
              pricedBy_of_offer hoffer⟩
          · intro it hit
            obtain ⟨items', hitems, -, hmem, hskipped⟩ := hit
            obtain rfl := Option.some.inj hitems
            obtain ⟨found, hfound⟩ := Option.isSome_iff_exists.1 (hread it hmem)
            cases found with
            | none => exact absurd hfound hskipped
            | some p =>
                exact ⟨p, List.mem_filterMap.2 ⟨it, hmem, Option.join_eq_some_iff.2 hfound⟩,
                  pricedBy_of_offer hfound⟩

/-- A search that is not made sells nothing. -/
theorem pricedFrom_ready {ready : Bool} {products : List LiveProduct} {taken : Json → Prop}
    (h : PricedFrom runtime source products taken) :
    PricedFrom runtime source (if ready then products else [])
      fun it => ready = true ∧ taken it := by
  cases ready with
  | true => exact ⟨fun p hp => by simpa using h.traced p hp, fun it hit => h.sold it hit.2⟩
  | false => exact PricedFrom.of_empty fun it hit => by cases hit.1

theorem pricedFrom_flatMap {α : Type} {l : List α} {products : α → List LiveProduct}
    {taken : α → Json → Prop}
    (h : ∀ a ∈ l, PricedFrom runtime source (products a) (taken a)) :
    PricedFrom runtime source (l.flatMap products) fun it => ∃ a ∈ l, taken a it := by
  constructor
  · intro p hp
    obtain ⟨a, ha, hpa⟩ := List.mem_flatMap.1 hp
    obtain ⟨it, hit, hpriced⟩ := (h a ha).traced p hpa
    exact ⟨it, ⟨a, ha, hit⟩, hpriced⟩
  · intro it hit
    obtain ⟨a, ha, hta⟩ := hit
    obtain ⟨p, hp, hpriced⟩ := (h a ha).sold it hta
    exact ⟨p, List.mem_flatMap.2 ⟨a, ha, hp⟩, hpriced⟩

/-- What is reached behind a listing that is skipped. -/
theorem reached_cons_of_skipped {offer : Json → Reading} {limit : ℤ} {found : ℕ}
    {first : Json} {items : List Json} {it : Json} (hfirst : offer first = some none) :
    Reached offer limit found (first :: items) it ↔ Reached offer limit found items it := by
  constructor
  · intro h
    obtain ⟨before, after, hitems, hread, hsome, hkept, hroom⟩ := h
    cases before with
    | nil =>
        obtain ⟨rfl, -⟩ := List.cons.inj hitems
        exact absurd hfirst hkept
    | cons other before =>
        obtain ⟨rfl, hrest⟩ := List.cons.inj hitems
        rw [List.filterMap_cons, hfirst] at hroom
        exact ⟨before, after, hrest, fun x hx => hread x (List.mem_cons_of_mem _ hx), hsome, hkept,
          hroom⟩
  · intro h
    obtain ⟨before, after, hitems, hread, hsome, hkept, hroom⟩ := h
    refine ⟨first :: before, after, by rw [hitems, List.cons_append], ?_, hsome, hkept, ?_⟩
    · rw [List.forall_mem_cons, hfirst]
      exact ⟨rfl, hread⟩
    · rw [List.filterMap_cons, hfirst]
      exact hroom

/-- What is reached at or behind a listing that becomes a product. -/
theorem reached_cons_of_product {offer : Json → Reading} {limit : ℤ} {found : ℕ}
    {first : Json} {items : List Json} {it : Json} {product : LiveProduct}
    (hfirst : offer first = some (some product)) :
    Reached offer limit found (first :: items) it ↔
      it = first ∨ ((found + 1 : ℕ) < limit ∧ Reached offer limit (found + 1) items it) := by
  constructor
  · intro h
    obtain ⟨before, after, hitems, hread, hsome, hkept, hroom⟩ := h
    cases before with
    | nil =>
        obtain ⟨rfl, -⟩ := List.cons.inj hitems
        exact Or.inl rfl
    | cons other before =>
        obtain ⟨rfl, hrest⟩ := List.cons.inj hitems
        have hjoin : (offer first).join = some product := by rw [hfirst]; rfl
        rw [List.filterMap_cons, hjoin] at hroom
        rcases hroom with hnone | hlimit
        · cases hnone
        · rw [List.length_cons] at hlimit
          refine Or.inr ⟨by omega, before, after, hrest,
            fun x hx => hread x (List.mem_cons_of_mem _ hx), hsome, hkept, Or.inr (by omega)⟩
  · intro h
    rcases h with rfl | ⟨hfound, before, after, hitems, hread, hsome, hkept, hroom⟩
    · exact ⟨[], items, rfl, fun x hx => absurd hx List.not_mem_nil, by rw [hfirst]; rfl,
        by rw [hfirst]; simp, Or.inl rfl⟩
    · have hjoin : (offer first).join = some product := by rw [hfirst]; rfl
      refine ⟨first :: before, after, by rw [hitems, List.cons_append], ?_, hsome, hkept,
        Or.inr ?_⟩
      · rw [List.forall_mem_cons, hfirst]
        exact ⟨rfl, hread⟩
      · rw [List.filterMap_cons, hjoin, List.length_cons]
        rcases hroom with hnone | hlimit
        · rw [hnone, List.length_nil]
          omega
        · omega

/-- A store sells the listings that are reached. -/
theorem pricedFrom_reached (limit : ℤ) (found : ℕ) (items : List Json) :
    PricedFrom runtime source (storeOffers (source.offer runtime query store) limit found items)
      (Reached (source.offer runtime query store) limit found items) := by
  induction items generalizing found with
  | nil =>
      apply PricedFrom.of_empty
      intro it hit
      obtain ⟨before, after, hitems, -⟩ := hit
      cases before <;> cases hitems
  | cons first items ih =>
      cases hfirst : source.offer runtime query store first with
      | none =>
          rw [storeOffers, hfirst]
          apply PricedFrom.of_empty
          intro it hit
          obtain ⟨before, after, hitems, hread, hsome, -⟩ := hit
          cases before with
          | nil =>
              obtain ⟨rfl, -⟩ := List.cons.inj hitems
              rw [hfirst] at hsome
              cases hsome
          | cons other before =>
              obtain ⟨rfl, -⟩ := List.cons.inj hitems
              have hother := hread first List.mem_cons_self
              rw [hfirst] at hother
              cases hother
      | some reading =>
          cases reading with
          | none =>
              have htaken : Reached (source.offer runtime query store) limit found
                  (first :: items) =
                  Reached (source.offer runtime query store) limit found items := by
                funext it
                exact propext (reached_cons_of_skipped hfirst)
              rw [storeOffers, hfirst, htaken]
              exact ih found
          | some product =>
              have hpriced := pricedBy_of_offer hfirst
              have hmore := ih (found + 1)
              rw [storeOffers, hfirst]
              dsimp only
              constructor
              · intro p hp
                rcases List.mem_cons.1 hp with rfl | hrest
                · exact ⟨first, (reached_cons_of_product hfirst).2 (Or.inl rfl), hpriced⟩
                · split_ifs at hrest with hlimit
                  · cases hrest
                  · obtain ⟨it, hit, hfrom⟩ := hmore.traced p hrest
                    exact ⟨it, (reached_cons_of_product hfirst).2
                      (Or.inr ⟨not_le.1 hlimit, hit⟩), hfrom⟩
              · intro it hit
                rcases (reached_cons_of_product hfirst).1 hit with rfl | ⟨hlimit, hrest⟩
                · exact ⟨product, List.mem_cons_self, hpriced⟩
                · obtain ⟨p, hp, hfrom⟩ := hmore.sold it hrest
                  rw [if_neg (not_le.2 hlimit)]
                  exact ⟨p, List.mem_cons_of_mem _ hp, hfrom⟩

/-- The product of a listing with an SKU. -/
theorem map_snd_keyed {x : LiveProduct} {pair : String × LiveProduct} (h : keyed x = some pair) :
    pair.2 = x := by
  obtain ⟨sku, -, hpair⟩ := Option.map_eq_some_iff.1 h
  rw [← hpair]

/-- A lookup finds an SKU with the last listing that has it. -/
theorem get?_listed (items : List Json) (sku : String) :
    (listed runtime items).get? sku =
      (items.reverse.find? fun it => skuIn runtime it = some sku).bind fun it =>
        (bestBuyProduct runtime "" it).join := by
  have hlast : (fun it => ((bestBuyProduct runtime "" it).join.bind keyed).any fun pair =>
      decide (pair.1 = sku)) = fun it => decide (skuIn runtime it = some sku) := by
    funext it
    rw [skuIn]
    cases (bestBuyProduct runtime "" it).join.bind keyed with
    | none => rfl
    | some pair => simp
  rw [listed, List.filterMap_filterMap, Dict.get?_ofPairs, ← List.filterMap_reverse,
    List.find?_filterMap, hlast]
  cases hfind : items.reverse.find? fun it => skuIn runtime it = some sku with
  | none => rfl
  | some it =>
      have hsku : skuIn runtime it = some sku := by simpa using List.find?_some hfind
      obtain ⟨pair, hpair, -⟩ := Option.map_eq_some_iff.1 hsku
      obtain ⟨x, hx, hkeyed⟩ := Option.bind_eq_some_iff.1 hpair
      rw [Option.bind_some, Option.bind_some, hpair, hx, Option.map_some, map_snd_keyed hkeyed]

/-- What an answer that can be read gives. -/
theorem answered_of_readable {outcome : Outcome} (h : Readable runtime outcome) :
    answered runtime outcome =
      ((productsIn outcome.json).getD []).filterMap fun it =>
        (bestBuyProduct runtime "" it).join := by
  have hanswer := answerBatch_of_readable h
  cases outcome with
  | failed error => exact h.elim
  | answered status body =>
      obtain ⟨rfl, hbody⟩ := h
      obtain ⟨products, hproducts⟩ := Option.isSome_iff_exists.1 hbody
      obtain ⟨items, hitems, hoffers⟩ := Option.bind_eq_some_iff.1 hproducts
      rw [Outcome.json, hitems, Option.getD_some, ← offersOf_eq hoffers]
      simpa [answerBatch, hproducts] using hanswer.symm

/-- The result of a lookup over answers that can be read. -/
theorem lookupSkus_of_readable {key : Option String} {outcomes : ℕ → Outcome}
    {skus : List String} (hskus : ∀ s ∈ skus, isSku runtime s = true)
    (hkey : key.all (fun key => key = "") = false)
    (hread : ∀ i < (batches (wanted skus)).length, Readable runtime (outcomes i)) :
    (lookupSkus runtime key outcomes skus).result =
      .ok (listed runtime (lookupListings outcomes skus)) := by
  have hloop := @lookupLoop_of_readable runtime outcomes (batches (wanted skus)) 0 Dict.empty
    fun j hj => by
      rw [Nat.zero_add]
      exact hread j hj
  have hproducts : ((List.range (batches (wanted skus)).length).flatMap fun j =>
      answered runtime (outcomes (0 + j))) =
      (lookupListings outcomes skus).filterMap fun it =>
        (bestBuyProduct runtime "" it).join := by
    rw [lookupListings, List.filterMap_flatMap]
    apply List.flatMap_congr
    intro i hi
    rw [Nat.zero_add]
    exact answered_of_readable (hread i (List.mem_range.1 hi))
  rw [lookupSkus_eq hskus hkey, hloop, foldl_addFound, hproducts]
  rfl

/-- A lookup that returns products has a key and SKUs, and can read every answer. -/
theorem readable_of_mem_yields {key : Option String} {outcomes : ℕ → Outcome}
    {skus : List String} {p : LiveProduct}
    (h : p ∈ (Call.lookup key outcomes skus).yields runtime) :
    (∀ s ∈ skus, isSku runtime s = true) ∧ key.all (fun key => key = "") = false ∧
      ∀ i < (batches (wanted skus)).length, Readable runtime (outcomes i) := by
  unfold Call.yields at h
  dsimp only at h
  cases hbad : (wanted skus).find? fun s => !isSku runtime s with
  | some bad =>
      rw [lookupSkus, hbad] at h
      cases h
  | none =>
      have hskus := find?_bad_eq_none_iff.1 hbad
      cases hkey : key.all fun key => key = "" with
      | true =>
          rw [lookupSkus, hbad, hkey] at h
          cases hwanted : wanted skus <;> rw [hwanted] at h <;> cases h
      | false =>
          refine ⟨hskus, rfl, ?_⟩
          rw [lookupSkus_eq hskus hkey] at h
          rcases @readable_or_first runtime outcomes (batches (wanted skus)).length with
            hall | ⟨k, hk, hbefore, hunread⟩
          · exact hall
          · have hbefore' : ∀ j < k, Readable runtime (outcomes (0 + j)) := fun j hj => by
              rw [Nat.zero_add]
              exact hbefore j hj
            cases hanswer : answerBatch runtime (outcomes k) with
            | error e =>
                rw [lookupLoop_of_unread Dict.empty hk hbefore' (by rwa [Nat.zero_add])] at h
                cases h
            | ok products => exact absurd (readable_of_answerBatch hanswer) hunread

/-- A lookup sells the last listings of their SKUs. -/
theorem pricedFrom_lookup (key : Option String) (outcomes : ℕ → Outcome) (skus : List String) :
    PricedFrom runtime .bestBuy ((Call.lookup key outcomes skus).yields runtime)
      ((Call.lookup key outcomes skus).Takes runtime) := by
  constructor
  · intro p hp
    obtain ⟨hskus, hkey, hread⟩ := readable_of_mem_yields hp
    have hresult := lookupSkus_of_readable hskus hkey hread
    rw [Call.yields, hresult] at hp
    obtain ⟨sku, hsku⟩ := Dict.mem_values_iff.1 hp
    rw [get?_listed] at hsku
    obtain ⟨it, hfind, hjoin⟩ := Option.bind_eq_some_iff.1 hsku
    exact ⟨it, ⟨hkey, hskus, hread, sku, hfind⟩,
      @pricedBy_of_offer runtime "" it .bestBuy "" p (Option.join_eq_some_iff.1 hjoin)⟩
  · intro it hit
    obtain ⟨hkey, hskus, hread, sku, hfind⟩ := hit
    have hresult := lookupSkus_of_readable hskus hkey hread
    have hsku : skuIn runtime it = some sku := by simpa using List.find?_some hfind
    obtain ⟨pair, hpair, -⟩ := Option.map_eq_some_iff.1 hsku
    obtain ⟨p, hp, -⟩ := Option.bind_eq_some_iff.1 hpair
    have hget : (listed runtime (lookupListings outcomes skus)).get? sku = some p := by
      rw [get?_listed, hfind, Option.bind_some, hp]
    refine ⟨p, ?_, @pricedBy_of_offer runtime "" it .bestBuy "" p (Option.join_eq_some_iff.1 hp)⟩
    rw [Call.yields, hresult]
    exact Dict.mem_values_iff.2 ⟨sku, hget⟩

theorem bestBuySearch_getD (configured : Bool) (outcome : Outcome) :
    (bestBuySearch runtime query configured outcome).getD [] =
      if (configured && !((queryTokens runtime query 1).take 6).isEmpty) = true then
        (bestBuyListings outcome >>= offersOf (bestBuyProduct runtime query)).getD []
      else [] := by
  unfold bestBuySearch
  cases configured with
  | false => rfl
  | true => cases ((queryTokens runtime query 1).take 6).isEmpty <;> rfl

/-- The products of a call are those of the listings it takes. -/
theorem pricedFrom_call (call : Call) :
    PricedFrom runtime call.source (call.yields runtime) (call.Takes runtime) := by
  cases call with
  | itunes query outcome =>
      exact @pricedFrom_kept runtime .itunes query "" (itunesListings outcome)
  | rapidApi configured query outcome =>
      have h := @pricedFrom_ready runtime _ configured _ _
        (@pricedFrom_kept runtime .rapidApi query "" (rapidApiListings outcome))
      cases configured <;> exact h
  | apify configured query outcome =>
      have h := @pricedFrom_ready runtime _ configured _ _
        (@pricedFrom_kept runtime .apify query "" (actorListings outcome))
      cases configured <;> exact h
  | amazon configured query outcome =>
      have h := @pricedFrom_ready runtime _ configured _ _
        (@pricedFrom_kept runtime .amazon query "" (actorListings outcome))
      cases configured <;> exact h
  | ebay configured token query outcome =>
      have h := @pricedFrom_ready runtime _ (configured && token) _ _
        (@pricedFrom_kept runtime .ebay query "" (ebayListings outcome))
      cases configured <;> cases token <;> exact h
  | bestBuy configured query outcome =>
      have h := @pricedFrom_ready runtime _
        (configured && !((queryTokens runtime query 1).take 6).isEmpty) _ _
        (@pricedFrom_kept runtime .bestBuy query "" (bestBuyListings outcome))
      rw [Call.yields, bestBuySearch_getD]
      exact h
  | lookup key outcomes skus => exact pricedFrom_lookup key outcomes skus
  | shopify limit query stores =>
      exact pricedFrom_flatMap fun store _ =>
        @pricedFrom_reached runtime .shopify query store.1 limit 0 (storeListings store.2)
  | firecrawl configured query outcome =>
      have h := @pricedFrom_ready runtime _ configured _ _
        (@pricedFrom_kept runtime .firecrawl query "" (firecrawlListings outcome))
      cases configured <;> exact h

/-- A call returns products with usable prices only, exactly if no listing that it takes reads
as a number that slips through the test of its connector. -/
theorem usable_iff_not_slips (call : Call) :
    (∀ p ∈ call.yields runtime, p.price.Usable) ↔
      ∀ it, call.Takes runtime it →
        ∀ x, call.source.number runtime it = some x → ¬call.source.Slips x :=
  (pricedFrom_call call).usable_iff

/-- Best Buy lets a NaN and a number below zero slip. -/
theorem unusable_prices_yielded :
    ¬∀ p ∈ (Call.bestBuy true "tv" (.answered 200 (some (.obj [("products", .arr
      [.obj [("sku", .int 1), ("name", .str "TV"), ("salePrice", .str "nan")],
        .obj [("sku", .int 2), ("name", .str "TV"), ("salePrice", .int (-5))]])])))).yields
          plainRuntime, p.price.Usable := by
  intro h
  have hprices : ((Call.bestBuy true "tv" (.answered 200 (some (.obj [("products", .arr
      [.obj [("sku", .int 1), ("name", .str "TV"), ("salePrice", .str "nan")],
        .obj [("sku", .int 2), ("name", .str "TV"), ("salePrice", .int (-5))]])])))).yields
          plainRuntime).map LiveProduct.price = [.nan, .finite (-5)] := by decide +kernel
  have hnan : Double.nan ∈ [Double.nan, .finite (-5)] := List.mem_cons_self
  rw [← hprices] at hnan
  obtain ⟨p, hp, hprice⟩ := List.mem_map.1 hnan
  have husable := h p hp
  rw [hprice] at husable
  exact husable

end Origins

end DealFinder.Feeds
