/-
# The stored product

The catalog keeps a product as the JSON text of all its fields. The text is represented
by its value here. A float that is no number is written as `null`, so a product is read
back unchanged exactly if its floats are finite.
-/

import DealFinder.Math.Traverse
import DealFinder.Pipeline.Dataset

namespace DealFinder.Pipeline

open DealFinder.Math DealFinder.Feeds

/-! ## Dates -/

/-- The days of a month. -/
def daysIn (year month : ℕ) : ℕ :=
  if month = 2 then
    if year % 4 = 0 ∧ (year % 100 ≠ 0 ∨ year % 400 = 0) then 29 else 28
  else if month ∈ [4, 6, 9, 11] then 30
  else 31

/-- `date`. -/
structure Day where
  year : ℕ
  month : ℕ
  day : ℕ
  valid : (1 ≤ year ∧ year ≤ 9999) ∧ (1 ≤ month ∧ month ≤ 12) ∧ 1 ≤ day ∧ day ≤ daysIn year month
  deriving DecidableEq

/-- A number below a hundred, in two digits. -/
def twoDigits (n : ℕ) : List Char := [Char.ofNat (48 + n / 10), Char.ofNat (48 + n % 10)]

/-- The number of two digits. -/
def readTwo (a b : Char) : Option ℕ :=
  if a.isDigit && b.isDigit then some (10 * (a.toNat - 48) + (b.toNat - 48)) else none

theorem readTwo_twoDigits :
    ∀ n < 100, readTwo (Char.ofNat (48 + n / 10)) (Char.ofNat (48 + n % 10)) = some n := by
  decide

/-- `date.isoformat`. -/
def Day.isoformat (d : Day) : String :=
  String.ofList (twoDigits (d.year / 100) ++ twoDigits (d.year % 100) ++
    '-' :: twoDigits d.month ++ '-' :: twoDigits d.day)

/-- The date of a text. -/
def readDay (s : String) : Option Day :=
  match s.toList with
  | [a, b, c, d, '-', e, f, '-', g, h] => do
      let century ← readTwo a b
      let year ← (readTwo c d).map fun n => 100 * century + n
      let month ← readTwo e f
      let day ← readTwo g h
      if valid : (1 ≤ year ∧ year ≤ 9999) ∧ (1 ≤ month ∧ month ≤ 12) ∧ 1 ≤ day ∧
          day ≤ daysIn year month then
        some ⟨year, month, day, valid⟩
      else none
  | _ => none

theorem daysIn_le (year month : ℕ) : daysIn year month ≤ 31 := by
  unfold daysIn
  split_ifs <;> omega

theorem readDay_isoformat (d : Day) : readDay d.isoformat = some d := by
  obtain ⟨year, month, day, valid⟩ := d
  have hday := daysIn_le year month
  have hyear : 100 * (year / 100) + year % 100 = year := Nat.div_add_mod year 100
  simp only [readDay, Day.isoformat, twoDigits, String.toList_ofList, List.cons_append,
    List.nil_append]
  rw [readTwo_twoDigits (year / 100) (by omega), readTwo_twoDigits (year % 100) (by omega),
    readTwo_twoDigits month (by omega), readTwo_twoDigits day (by omega)]
  simp only [Option.map_some, Option.bind_eq_bind, Option.bind_some, hyear]
  rw [dif_pos valid]

/-! ## Products -/

/-- `PricePoint`. -/
structure PricePoint where
  day : Day
  price : Double

/-- `Product`, with all its fields. -/
structure CatalogProduct extends CorpusProduct where
  specs : Dict String String
  priceHistory : List PricePoint

/-- A float as a JSON value: what is no number is `null`. -/
def dumpFloat : Double → Json
  | .finite x => .float (.finite x)
  | _ => .null

/-- A text or `None` as a JSON value. -/
def dumpText (s : Option String) : Json := s.elim .null .str

/-- `model_dump_json`, of a `PricePoint`. -/
def dumpPoint (point : PricePoint) : Json :=
  .obj [("day", .str point.day.isoformat), ("price", dumpFloat point.price)]

/-- The fields of a product as JSON values. -/
def dumpFields (p : CatalogProduct) : List (String × Json) :=
  [("id", .str p.id), ("title", .str p.title), ("brand", dumpText p.brand),
    ("category", .str p.category), ("price", dumpFloat p.price), ("currency", .str p.currency),
    ("url", .str p.url), ("source", .str p.source), ("image_url", dumpText p.imageUrl),
    ("sku", dumpText p.sku), ("regular_price", p.regularPrice.elim .null dumpFloat),
    ("marketplace", dumpText p.marketplace), ("condition", .str p.condition),
    ("specs", .obj (p.specs.entries.map fun entry => (entry.1, .str entry.2))),
    ("price_history", .arr (p.priceHistory.map dumpPoint))]

/-- `model_dump_json`. -/
def dump (p : CatalogProduct) : Json := .obj (dumpFields p)

section Validate

variable (runtime : Runtime)

/-- A field that may be a float or `None`. -/
def asFloatOrNone : Json → Option (Option Double)
  | .null => some none
  | v => (floatOf runtime v).map some

/-- `model_validate_json`, of a `PricePoint`. -/
def validatePoint (v : Json) : Option PricePoint :=
  match v with
  | .obj entries => do
      let day ← ((Json.value? entries "day").bind Json.asStr).bind readDay
      let price ← (Json.value? entries "price").bind (floatOf runtime)
      return ⟨day, price⟩
  | _ => none

/-- The field `specs`. -/
def validateSpecs : Json → Option (Dict String String)
  | .obj entries =>
      (entries.mapM fun entry : String × Json => entry.2.asStr.map fun s => (entry.1, s)).map
        Dict.ofPairs
  | _ => none

/-- The field `price_history`. -/
def validateHistory : Json → Option (List PricePoint)
  | .arr items => items.mapM (validatePoint runtime)
  | _ => none

/-- `Product.model_validate_json`. -/
def validate (v : Json) : Option CatalogProduct :=
  match v with
  | .obj entries => do
      let text := fun key => (Json.value? entries key).bind Json.asStr
      let optional := fun key => ((Json.value? entries key).getD .null).asStrOrNone
      let id ← text "id"
      let title ← text "title"
      let brand ← (Json.value? entries "brand").bind Json.asStrOrNone
      let category ← text "category"
      let price ← (Json.value? entries "price").bind (floatOf runtime)
      let currency ← ((Json.value? entries "currency").getD (.str "USD")).asStr
      let url ← text "url"
      let source ← text "source"
      let imageUrl ← optional "image_url"
      let sku ← optional "sku"
      let regularPrice ← asFloatOrNone runtime ((Json.value? entries "regular_price").getD .null)
      let marketplace ← optional "marketplace"
      let condition ← ((Json.value? entries "condition").getD (.str "new")).asStr
      let specs ← validateSpecs ((Json.value? entries "specs").getD (.obj []))
      let priceHistory ←
        validateHistory runtime ((Json.value? entries "price_history").getD (.arr []))
      return { id, title, brand, category, price, currency, url, source, imageUrl, sku,
               regularPrice, marketplace, condition, specs, priceHistory }
  | _ => none

end Validate

/-! ## The round trip -/

/-- A float that JSON can write. -/
def isFinite : Double → Bool
  | .finite _ => true
  | _ => false

section RoundTrip

variable {runtime : Runtime}

theorem floatOf_dumpFloat (x : Double) :
    floatOf runtime (dumpFloat x) = if isFinite x then some x else none := by
  cases x <;> rfl

theorem asStrOrNone_dumpText (s : Option String) : (dumpText s).asStrOrNone = some s := by
  cases s <;> rfl

theorem asFloatOrNone_dump (x : Option Double) :
    asFloatOrNone runtime (x.elim .null dumpFloat) = some (x.filter isFinite) := by
  cases x with
  | none => rfl
  | some x => cases x <;> rfl

theorem validatePoint_dumpPoint (point : PricePoint) :
    validatePoint runtime (dumpPoint point) =
      if isFinite point.price then some point else none := by
  have hday : Json.value? [("day", .str point.day.isoformat), ("price", dumpFloat point.price)]
      "day" = some (.str point.day.isoformat) := rfl
  have hprice : Json.value? [("day", .str point.day.isoformat), ("price", dumpFloat point.price)]
      "price" = some (dumpFloat point.price) := rfl
  simp only [validatePoint, dumpPoint, hday, hprice, Option.bind_some, Json.asStr,
    readDay_isoformat, Option.bind_eq_bind, floatOf_dumpFloat]
  split_ifs <;> rfl

theorem validateSpecs_dump (specs : Dict String String) :
    validateSpecs (.obj (specs.entries.map fun entry => (entry.1, .str entry.2))) =
      some specs := by
  have hread : ∀ entries : List (String × String),
      (entries.map fun entry => (entry.1, Json.str entry.2)).mapM
          (fun entry : String × Json => entry.2.asStr.map fun s => (entry.1, s)) =
        some entries := by
    intro entries
    induction entries with
    | nil => rfl
    | cons entry rest ih =>
        rw [List.map_cons, List.mapM_cons, ih]
        rfl
  rw [validateSpecs, hread, Option.map_some, Option.some_inj]
  exact Dict.eq_of_entries (Dict.entries_ofPairs specs.nodup_keys)

theorem validateHistory_dump (history : List PricePoint) :
    validateHistory runtime (.arr (history.map dumpPoint)) =
      if history.all fun point => isFinite point.price then some history else none := by
  rw [validateHistory]
  induction history with
  | nil => rfl
  | cons point rest ih =>
      rw [List.map_cons, List.mapM_cons, ih, validatePoint_dumpPoint]
      cases hfirst : isFinite point.price with
      | false => simp [hfirst]
      | true =>
          cases hrest : rest.all fun point => isFinite point.price with
          | false => simp [hfirst, hrest]
          | true => simp [hfirst, hrest]

/-- A product is read back with the regular price it had if that is a number, or not at
all if another of its floats is none. -/
theorem validate_dump (p : CatalogProduct) :
    validate runtime (dump p) =
      if isFinite p.price && p.priceHistory.all fun point => isFinite point.price then
        some { p with regularPrice := p.regularPrice.filter isFinite }
      else none := by
  have hid : Json.value? (dumpFields p) "id" = some (.str p.id) := rfl
  have htitle : Json.value? (dumpFields p) "title" = some (.str p.title) := rfl
  have hbrand : Json.value? (dumpFields p) "brand" = some (dumpText p.brand) := rfl
  have hcategory : Json.value? (dumpFields p) "category" = some (.str p.category) := rfl
  have hprice : Json.value? (dumpFields p) "price" = some (dumpFloat p.price) := rfl
  have hcurrency : Json.value? (dumpFields p) "currency" = some (.str p.currency) := rfl
  have hurl : Json.value? (dumpFields p) "url" = some (.str p.url) := rfl
  have hsource : Json.value? (dumpFields p) "source" = some (.str p.source) := rfl
  have himage : Json.value? (dumpFields p) "image_url" = some (dumpText p.imageUrl) := rfl
  have hsku : Json.value? (dumpFields p) "sku" = some (dumpText p.sku) := rfl
  have hregular : Json.value? (dumpFields p) "regular_price" =
      some (p.regularPrice.elim .null dumpFloat) := rfl
  have hmarketplace : Json.value? (dumpFields p) "marketplace" =
      some (dumpText p.marketplace) := rfl
  have hcondition : Json.value? (dumpFields p) "condition" = some (.str p.condition) := rfl
  have hspecs : Json.value? (dumpFields p) "specs" =
      some (.obj (p.specs.entries.map fun entry => (entry.1, .str entry.2))) := rfl
  have hhistory : Json.value? (dumpFields p) "price_history" =
      some (.arr (p.priceHistory.map dumpPoint)) := rfl
  simp only [validate, dump, hid, htitle, hbrand, hcategory, hprice, hcurrency, hurl, hsource,
    himage, hsku, hregular, hmarketplace, hcondition, hspecs, hhistory,
    Option.bind_some, Option.getD_some, Json.asStr, asStrOrNone_dumpText, floatOf_dumpFloat,
    asFloatOrNone_dump, validateSpecs_dump, validateHistory_dump, Option.bind_eq_bind]
  cases isFinite p.price with
  | false => rfl
  | true =>
      cases p.priceHistory.all fun point => isFinite point.price with
      | false => rfl
      | true => rfl

end RoundTrip

end DealFinder.Pipeline
