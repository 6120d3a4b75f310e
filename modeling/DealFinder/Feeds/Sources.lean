/-
# The connectors

Each connector reads the listings of an answer one by one. A listing is skipped, becomes a
product, or raises, and then so does the search, except that Shopify gives up on the store
only.
-/

import DealFinder.Feeds.Json
import DealFinder.Rag.Prices

namespace DealFinder.Feeds

open DealFinder.Math DealFinder.Rag

/-- `Product`, as a connector builds it. -/
structure LiveProduct where
  id : String
  title : String
  brand : Option String
  category : String
  price : Double
  currency : String := "USD"
  url : String
  source : String
  imageUrl : Option String := none
  sku : Option String := none
  regularPrice : Option Double := none

/-- What becomes of a request: an `httpx` error, or a status and a body, which may be no
JSON. -/
inductive Outcome
  | failed (error : String)
  | answered (status : ℕ) (body : Option Json)

/-- `r.json()`, whatever the status. -/
def Outcome.json : Outcome → Option Json
  | failed _ => none
  | answered _ body => body

/-- What becomes of a listing: it raises, is skipped, or is a product. -/
abbrev Reading := Option (Option LiveProduct)

/-- The products of some listings, unless one of them raises. -/
def offersOf (offer : Json → Reading) : List Json → Option (List LiveProduct)
  | [] => some []
  | it :: rest => do
      let found ← offer it
      let more ← offersOf offer rest
      return found.toList ++ more

/-- `if not price: continue`. -/
def priced (price : Option Double) : Option Double := price.filter Double.truthy

section Connectors

variable (runtime : Runtime) (query : String)

/-! ## iTunes -/

/-- The price of a listing on iTunes, unless it is skipped. -/
def itunesPrice (it : Json) : Option (Option Double) := do
  let price ← it.getOr "trackPrice" "collectionPrice"
  return (priced (f runtime price)).filter fun x => !x.atMost (.finite 0)

/-- A listing on iTunes. -/
def itunesOffer (it : Json) : Reading := do
  match ← itunesPrice runtime it with
  | none => return none
  | some price =>
      let tid ← it.getOr "trackId" "collectionId"
      let title ← titleOf (← it.getOr "trackName" "collectionName") query
      let brand ← (← it.get "artistName").asStrOrNone
      let category ← (← it.getD "primaryGenreName" (.str "media")).asStr
      let url ← ((← it.getOr "trackViewUrl" "collectionViewUrl").orElse (.str "")).asStr
      let imageUrl ← (← it.get "artworkUrl100").asStrOrNone
      return some
        { id := "itunes-" ++ strOf runtime tid, title, brand, category, price, url
          source := "iTunes", imageUrl }

/-- The listings of an answer of iTunes. -/
def itunesListings (outcome : Outcome) : Option (List Json) := do
  (← (← outcome.json).getD "results" (.arr [])).iterate

/-- `ItunesSource.search`. -/
def itunesSearch (outcome : Outcome) : Option (List LiveProduct) := do
  offersOf (itunesOffer runtime query) (← itunesListings outcome)

/-! ## RapidAPI -/

/-- The price of a listing on RapidAPI, unless it is skipped. -/
def rapidApiPrice (it : Json) : Option (Option Double) := do
  return priced (f runtime (← it.get "price"))

/-- A listing on RapidAPI. -/
def rapidApiOffer (it : Json) : Reading := do
  match ← rapidApiPrice runtime it with
  | none => return none
  | some price =>
      let store ← ((← it.get "store_name").orElse (.str "store")).asStr
      let name := (← it.get "product_id").orElse (← it.getD "product_title" (.str ""))
      let title ← titleOf (← it.get "product_title") query
      let url ← ((← it.get "product_page_url").orElse (.str "")).asStr
      let imageUrl ← (← (← it.get "product_photos").firstOr .null).asStrOrNone
      return some
        { id := "rapidapi-" ++ clip 40 (strOf runtime name), title, brand := some store
          category := "product", price, url, source := "RapidAPI:" ++ store, imageUrl }

/-- The listings of an answer of RapidAPI. -/
def rapidApiListings (outcome : Outcome) : Option (List Json) := do
  let data ← (← outcome.json).get "data"
  (← (data.orElse (.obj [])).getD "products" (.arr [])).iterate

/-- `RapidApiSource.search`. -/
def rapidApiSearch (configured : Bool) (outcome : Outcome) : Option (List LiveProduct) := do
  if !configured then return []
  offersOf (rapidApiOffer runtime query) (← rapidApiListings outcome)

/-! ## Apify -/

/-- The price of a listing on Apify, unless it is skipped for its price or its currency. -/
def apifyPrice (it : Json) : Option (Option Double) := do
  let numeric ← it.get "priceNumeric"
  let price ← it.get "price"
  if !numeric.truthy && (priced (f runtime price)).isNone then return none
  let currency ← ((← it.get "currency").orElse (.str "USD")).asStr
  if runtime.upper currency ≠ "USD" then return none
  if numeric.truthy then
    return some (← floatOf runtime numeric)
  else
    return priced (f runtime price)

/-- A listing on Apify. -/
def apifyOffer (it : Json) : Reading := do
  match ← apifyPrice runtime it with
  | none => return none
  | some price =>
      let merchant ← ((← it.get "merchant").orElse (.str "shopping")).asStr
      let name ← ((← it.get "title").orElse (.str "")).asStr
      let title ← titleOf (← it.get "title") query
      let currency ← ((← it.get "currency").orElse (.str "USD")).asStr
      let url ← ((← it.get "productUrl").orElse (.str "")).asStr
      let imageUrl ← (← it.get "imageUrl").asStrOrNone
      return some
        { id := "apify-" ++ clip 40 name, title, brand := some merchant, category := "product"
          price, currency, url, source := "Apify:" ++ merchant, imageUrl }

/-- The listings of an actor's answer, none where it is no list. -/
def actorListings (outcome : Outcome) : Option (List Json) := do
  match ← outcome.json with
  | .arr items => return items
  | _ => return []

/-- `ApifySource.search`. -/
def apifySearch (configured : Bool) (outcome : Outcome) : Option (List LiveProduct) := do
  if !configured then return []
  offersOf (apifyOffer runtime query) (← actorListings outcome)

/-! ## Amazon -/

/-- The number in a price of Amazon. -/
def amazonValue : Json → Option Json
  | .obj entries => (Json.obj entries).get "value"
  | v => some v

/-- The currency in a price of Amazon. -/
def amazonCurrency : Json → Option Json
  | .obj entries => (Json.obj entries).get "currency"
  | _ => some .null

/-- The price of a listing on Amazon, before it is rounded, unless it is skipped for its
price or its currency. -/
def amazonPrice (it : Json) : Option (Option Double) := do
  let price := (← it.get "price").orElse (.obj [])
  match priced (f runtime (← amazonValue price)) with
  | none => return none
  | some x =>
      match (← amazonCurrency price).orElse (.str "USD") with
      | .str s => return if s = "USD" ∨ s = "$" then some x else none
      | _ => return none

/-- A listing on Amazon. -/
def amazonOffer (it : Json) : Reading := do
  match ← amazonPrice runtime it with
  | none => return none
  | some price =>
      let asin ← it.get "asin"
      let name ← it.getD "title" (.str "")
      let title ← titleOf (← it.get "title") query
      let imageUrl ← (← it.get "imageUrl").asStrOrNone
      return some
        { id := "amazon-" ++
            if asin.truthy then strOf runtime asin else clip 40 (strOf runtime name)
          title, brand := some "Amazon", category := "product", price := price.roundCents
          url := if asin.truthy then "https://www.amazon.com/dp/" ++ strOf runtime asin else ""
          source := "Amazon", imageUrl }

/-- `AmazonSource.search`. -/
def amazonSearch (configured : Bool) (outcome : Outcome) : Option (List LiveProduct) := do
  if !configured then return []
  offersOf (amazonOffer runtime query) (← actorListings outcome)

/-! ## eBay -/

/-- The price of a listing on eBay, unless it is skipped. -/
def ebayPrice (it : Json) : Option (Option Double) := do
  return priced (f runtime (← (← it.get "price").getIn "value"))

/-- A listing on eBay. -/
def ebayOffer (it : Json) : Reading := do
  match ← ebayPrice runtime it with
  | none => return none
  | some price =>
      let cond := strOf runtime ((← it.get "condition").orElse (.str "eBay"))
      let itemId := (strOf runtime (← it.getD "itemId" (.str ""))).toList
      let title ← titleOf (← it.get "title") query
      let currency ← (← ((← it.get "price").orElse (.obj [])).getD "currency" (.str "USD")).asStr
      let url ← ((← it.get "itemWebUrl").orElse (.str "")).asStr
      let imageUrl ← (← (← it.get "image").getIn "imageUrl").asStrOrNone
      return some
        { id := "ebay-" ++ String.ofList (itemId.drop (itemId.length - 40)), title, brand := none
          category := "product", price, currency, url, source := "eBay:" ++ cond, imageUrl }

/-- The listings of an answer of eBay, none where it is refused. -/
def ebayListings (outcome : Outcome) : Option (List Json) := do
  match outcome with
  | .failed _ => none
  | .answered status body =>
      if status ≠ 200 then return []
      ((← (← body).get "itemSummaries").orElse (.arr [])).iterate

/-- `EbaySource.search`. Without a token the request for one has raised. -/
def ebaySearch (configured token : Bool) (outcome : Outcome) : Option (List LiveProduct) := do
  if !configured then return []
  if !token then none
  offersOf (ebayOffer runtime query) (← ebayListings outcome)

/-! ## Best Buy -/

/-- The price of a listing of Best Buy, unless it is skipped. -/
def bestBuyPrice (p : Json) : Option (Option Double) := do
  return priced (f runtime (← p.get "salePrice"))

/-- `_product`. -/
def bestBuyProduct (fallback : String) (p : Json) : Reading := do
  match ← bestBuyPrice runtime p with
  | none => return none
  | some price =>
      let reg ← p.get "regularPrice"
      let onSale ← if reg.truthy then lessThan runtime (← p.getD "salePrice" reg) reg
        else some false
      let sku ← p.get "sku"
      let title ← titleOf (← p.get "name") fallback
      let brand ← (← p.get "manufacturer").asStrOrNone
      let url ← ((← p.get "url").orElse (.str "")).asStr
      let imageUrl ← (← p.get "image").asStrOrNone
      return some
        { id := "bestbuy-" ++ strOf runtime sku, title, brand, category := "product", price, url
          source := if onSale then "BestBuy:sale" else "BestBuy"
          imageUrl
          sku := match sku with
            | .null => none
            | sku => some (strOf runtime sku)
          regularPrice := f runtime reg }

/-- `re.findall(r"[a-z0-9]+", query.lower())`, of the words longer than a bound. -/
def queryTokens (bound : ℕ) : List (List Char) :=
  (tokens runtime.toLanguage query).filter fun t => bound < t.length

/-- `r.json().get("products", [])`, of a body. -/
def productsIn (body : Option Json) : Option (List Json) := do
  (← (← body).getD "products" (.arr [])).iterate

/-- The listings of an answer of Best Buy, none where it is refused. -/
def bestBuyListings (outcome : Outcome) : Option (List Json) := do
  match outcome with
  | .failed _ => none
  | .answered status body => if status ≠ 200 then return [] else productsIn body

/-- `BestBuySource.search`. -/
def bestBuySearch (configured : Bool) (outcome : Outcome) : Option (List LiveProduct) := do
  if !configured || ((queryTokens runtime query 1).take 6).isEmpty then return []
  offersOf (bestBuyProduct runtime query) (← bestBuyListings outcome)

/-! ## Shopify -/

/-- The tags of a listing, joined. -/
def shopifyTags (p : Json) : Option String := do
  let tags ← match (← p.get "tags").orElse (.arr []) with
    | .str s => some ((s.splitOn ",").map Json.str)
    | v => v.iterate
  return " ".intercalate (← tags.mapM Json.asStr)

/-- The price of a listing on Shopify, unless it is skipped for its words or its price. -/
def shopifyPrice (p : Json) : Option (Option Double) := do
  let hay := runtime.lower (strOf runtime (← p.getD "title" (.str "")) ++ " " ++
    strOf runtime (← p.getD "product_type" (.str "")) ++ " " ++ (← shopifyTags p))
  if !(queryTokens runtime query 2).all fun t => decide (t <:+: hay.toList) then return none
  let variant ← (← p.get "variants").firstOr (.obj [])
  return priced (f runtime (← variant.get "price"))

/-- A listing on Shopify. -/
def shopifyOffer (store : String) (p : Json) : Reading := do
  match ← shopifyPrice runtime query p with
  | none => return none
  | some price =>
      let title ← titleOf (← p.get "title") query
      let brand ← (← p.get "vendor").asStrOrNone
      let image ← (← p.get "images").firstOr (.obj [])
      let imageUrl ← (← image.get "src").asStrOrNone
      return some
        { id := "shopify-" ++ store ++ "-" ++ strOf runtime (← p.get "id"), title, brand
          category := "product", price
          url := "https://" ++ store ++ "/products/" ++ strOf runtime (← p.getD "handle" (.str ""))
          source := "Shopify:" ++ store, imageUrl }

/-- The loop over the listings of a store, after `per_store` products: it ends at the limit
and where a listing raises. -/
def storeOffers (offer : Json → Reading) (limit : ℤ) : ℕ → List Json → List LiveProduct
  | _, [] => []
  | perStore, p :: rest =>
      match offer p with
      | none => []
      | some none => storeOffers offer limit perStore rest
      | some (some product) =>
          product :: if limit ≤ (perStore + 1 : ℕ) then [] else
            storeOffers offer limit (perStore + 1) rest

/-- The listings of a store, none where its answer raises or is refused. -/
def storeListings (outcome : Outcome) : List Json :=
  match outcome with
  | .failed _ => []
  | .answered status body =>
      if status ≠ 200 then [] else (productsIn body).getD []

/-- `ShopifySource.search`, of the stores with what becomes of their requests. -/
def shopifySearch (limit : ℤ) (stores : List (String × Outcome)) : List LiveProduct :=
  stores.flatMap fun (store, outcome) =>
    storeOffers (shopifyOffer runtime query store) limit 0 (storeListings outcome)

/-! ## Firecrawl -/

/-- `[0-9]`. -/
def isAsciiDigit (x : Char) : Bool := '0' ≤ x && x ≤ '9'

/-- `\$\s?([0-9][0-9,]*(?:\.[0-9]{2})?)`. -/
def quotedPrice : Grouped where
  before := (Regex.one fun x => x = '$').seq (Regex.one isSpace).opt
  group := .inOrder [.one isAsciiDigit, .many fun x => isAsciiDigit x || x = ',',
    (Regex.inOrder [.one fun x => x = '.', .one isAsciiDigit, .one isAsciiDigit]).opt]
  after := .plain .empty

/-- The price of a page, unless it is skipped. -/
def firecrawlPrice (it : Json) : Option (Option Double) := do
  let description ← ((← it.get "description").orElse (.str "")).asStr
  let found := quotedPrice.search (Features.isWord runtime.toUnicode) description.toList
  let price := found.bind fun (group, _) => readPrice runtime (String.ofList group)
  return (priced price).filter fun x => (Double.finite 1).atMost x && x.atMost (.finite 100000)

/-- `_SKIP`. -/
def skipped : List String :=
  ["rtings.com", "nytimes.com", "techradar.com", "cnet.com", "tomsguide.com", "wired.com",
    "theverge.com", "pcmag.com", "forbes.com", "reddit.com", "youtube.com", "wikipedia.org",
    "wirecutter.com", "businessinsider.com"]

/-- A page that Firecrawl finds. -/
def firecrawlOffer (it : Json) : Reading := do
  match ← firecrawlPrice runtime it with
  | none => return none
  | some price =>
      let url ← ((← it.get "url").orElse (.str "")).asStr
      let host := (← runtime.netloc url).replace "www." ""
      let dom := if host = "" then "web" else host
      if dom ∈ skipped then return none
      let name ← ((← it.getOr "url" "title").orElse (.str "")).asStr
      let title ← titleOf (← it.get "title") query
      return some
        { id := "firecrawl-" ++ clip 60 name, title, brand := some dom, category := "product"
          price, url, source := "Firecrawl:" ++ dom }

/-- The pages of an answer of Firecrawl. -/
def firecrawlListings (outcome : Outcome) : Option (List Json) := do
  ((← (← outcome.json).get "data").orElse (.arr [])).iterate

/-- `FirecrawlSource.search`. -/
def firecrawlSearch (configured : Bool) (outcome : Outcome) : Option (List LiveProduct) := do
  if !configured then return []
  offersOf (firecrawlOffer runtime query) (← firecrawlListings outcome)

end Connectors

end DealFinder.Feeds
