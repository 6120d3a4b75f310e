/-
# The labeled dataset

`build_labeled_dataset` goes over the rows of a snapshot, and takes the product of each
from a dictionary by id. Of the products with one id the dictionary keeps the last, so a
row is labeled, and described, as the last row of its id (`aligned_iff`).
-/

import DealFinder.Feeds.Sources
import DealFinder.Math.Traverse
import DealFinder.Pipeline.Contract

namespace DealFinder.Pipeline

open DealFinder.Math DealFinder.Feeds

/-! ## The verdict -/

/-- `LABELS`. -/
inductive Label
  | deal | fair | suspicious | overpriced
  deriving DecidableEq

namespace Label

/-- The labels, in the order of `LABELS`. -/
def all : List Label := [deal, fair, suspicious, overpriced]

/-- `LABELS.index`. -/
def index (label : Label) : ℕ := all.idxOf label

theorem index_injective : Function.Injective index := by
  intro first second h
  cases first <;> cases second <;> first | rfl | cases h

end Label

/-- `median_signal`. -/
def medianSignal (actual median : Double) : Double :=
  if median.atMost (.finite 0) then .finite 0 else (median.sub actual).div median

/-- `residual_fraction`. -/
def residualFraction (actual fair : Double) : Double :=
  if fair.atMost (.finite 0) then .finite 0 else (fair.sub actual).div fair

/-- `DEAL_MEDIAN_FRAC`. -/
def dealMedianFrac : Double := .nearest (15 / 100)

/-- `SUSPICIOUS_RESIDUAL_FRAC`. -/
def suspiciousResidualFrac : Double := .nearest (70 / 100)

/-- The label of `verdict`. -/
def verdict (actual median fair : Double) : Label :=
  let m := medianSignal actual median
  let rf := residualFraction actual fair
  if dealMedianFrac.atMost m && suspiciousResidualFrac.atMost rf then .suspicious
  else if dealMedianFrac.atMost m then .deal
  else if m.less (.finite 0) then .overpriced
  else .fair

/-! ## Products -/

/-- `Product`, as `to_products` builds it. -/
structure CorpusProduct extends LiveProduct where
  marketplace : Option String
  condition : String

/-- A fitted `LinearModel`: what it predicts. -/
abbrev Model := List Double → Double

section Dataset

variable (runtime : Runtime) (fit : List (List Double) → List Double → Option Model)

/-- A row as `to_products` reads it. A missing column, or a value that the schema refuses,
raises. -/
def toProduct (r : Row) : Option CorpusProduct := do
  let id ← (r.get? "id").bind Json.asStr
  let title ← (r.get? "title").bind Json.asStr
  let brand ← ((r.get? "brand").getD .null).asStrOrNone
  let category ← (r.get? "category").bind Json.asStr
  let price ← (r.get? "price").bind (floatOf runtime)
  let currency ← ((r.get? "currency").getD (.str "USD")).asStr
  let url ← (r.get? "url").bind Json.asStr
  let market := (r.get? "marketplace").getD (.str "snapshot")
  let source ← ((r.get? "source").getD market).asStr
  let marketplace ← ((r.get? "marketplace").getD .null).asStrOrNone
  return { id, title, brand, category, price, currency, url, source, marketplace,
           condition := Features.parseCondition runtime.toUnicode title }

/-- `featurize`. -/
def featurize (p : CorpusProduct) : List Double :=
  let condition :=
    if p.condition ≠ "" then p.condition else Features.parseCondition runtime.toUnicode p.title
  [.finite (Features.categoryCode runtime.toUnicode p.category),
    .finite (Features.brandTier runtime.toUnicode p.title),
    .finite (Features.conditionCode runtime.toUnicode condition)]

/-! ## Models -/

/-- One category of `_per_category_models`, with `_MIN_CATEGORY_ROWS`. -/
def fitCategory (products : List CorpusProduct) (models : Dict String Model) (c : String) :
    Option (Dict String Model) :=
  let ps := products.filter fun p => p.category = c
  if 3 ≤ ps.length then
    (fit (ps.map (featurize runtime)) (ps.map fun p => p.price)).map (models.set c)
  else some models

/-- `_per_category_models`. -/
def perCategoryModels (products : List CorpusProduct) : Option (Dict String Model) :=
  (products.map fun p => p.category).eraseDups.foldlM (fitCategory runtime fit products)
    Dict.empty

/-- `label_for`. -/
def labelFor (p : CorpusProduct) (median : Double) (models : Dict String Model) : Label :=
  let fair :=
    match models.get? p.category with
    | some model => model (featurize runtime p)
    | none => median
  verdict p.price median fair

/-! ## The dataset -/

/-- `LabeledDataset`. -/
structure LabeledDataset where
  x : List (List Double)
  y : List ℕ
  ids : List String
  queries : List Json
  featureNames : List String

/-- What the loop of `build_labeled_dataset` appends for a row. -/
structure LabeledRow where
  id : String
  query : Json
  y : ℕ
  features : List Double

/-- The body of the loop of `build_labeled_dataset`. -/
def labelRow (byId : Dict String CorpusProduct) (models : Dict String Model) (r : Row) :
    Option LabeledRow := do
  let id ← (r.get? "id").bind Json.asStr
  let p ← byId.get? id
  let median ← (r.get? "median_price_at_capture").bind (floatOf runtime)
  let query ← r.get? "query"
  return ⟨p.id, query, (labelFor runtime p median models).index, featurize runtime p⟩

/-- The cached title embeddings: ids, and a vector for each. -/
abbrev Embedded := List (String × List Double)

/-- The embedding of a row: the last vector of its id. -/
def embeddingOf (cached : Embedded) (id : String) : Option (List Double) :=
  (Dict.ofPairs cached).get? id

/-- `hand_rows`, with the embeddings beside them when `with_embeddings` is set, and the names
of the columns. -/
def columnsOf (embedded : Option Embedded) (labeled : List LabeledRow) :
    Option (List (List Double) × List String) :=
  let names := ["category_code", "brand_tier", "condition_code"]
  match embedded with
  | none => some (labeled.map fun row => row.features, names)
  | some cached => do
      let emb ← labeled.mapM fun row => embeddingOf cached row.id
      let width := (← emb.head?).length
      return (labeled.zipWith (fun row v => row.features ++ v) emb,
        names ++ (List.range width).map fun k => "emb_" ++ toString k)

/-- `build_labeled_dataset`, of the rows of the snapshot. -/
def buildLabeledDataset (items : List Row) (embedded : Option Embedded) :
    Option LabeledDataset := do
  let products ← items.mapM (toProduct runtime)
  let byId := Dict.ofPairs (products.map fun p => (p.id, p))
  let models ← perCategoryModels runtime fit products
  let labeled ← items.mapM (labelRow runtime byId models)
  let (x, featureNames) ← columnsOf embedded labeled
  return { x, featureNames
           y := labeled.map fun row => row.y
           ids := labeled.map fun row => row.id
           queries := labeled.map fun row => row.query }

end Dataset

/-! ## Alignment -/

section Alignment

variable (runtime : Runtime) (fit : List (List Double) → List Double → Option Model)

/-- The median of a row. -/
def medianOf (r : Row) : Option Double :=
  (r.get? "median_price_at_capture").bind (floatOf runtime)

/-- Row `i` of the dataset has the label, the features and the query of row `i` of the
snapshot. -/
structure AlignedAt (models : Dict String Model) (data : LabeledDataset) (i : ℕ) (r : Row)
    (p : CorpusProduct) (median : Double) : Prop where
  label : data.y[i]? = some (labelFor runtime p median models).index
  features : data.x[i]?.map (List.take 3) = some (featurize runtime p)
  query : data.queries[i]? = r.get? "query"

/-- The rows of the dataset are aligned with those of the snapshot. -/
def Aligned (items : List Row) (data : LabeledDataset) : Prop :=
  ∃ products models, items.mapM (toProduct runtime) = some products ∧
    perCategoryModels runtime fit products = some models ∧ data.y.length = items.length ∧
      ∀ (i : ℕ) (r : Row), items[i]? = some r → ∃ p median, toProduct runtime r = some p ∧
        medianOf runtime r = some median ∧ AlignedAt runtime models data i r p median

/-- The last product with an id. -/
def lastOfId (products : List CorpusProduct) (id : String) : Option CorpusProduct :=
  products.reverse.find? fun p => p.id = id

/-- Every row has the features of the last row of its id, and the label that row would have
at its own median. -/
def SharesLast (items : List Row) : Prop :=
  ∀ products models, items.mapM (toProduct runtime) = some products →
    perCategoryModels runtime fit products = some models → ∀ r ∈ items, ∀ p q median,
      toProduct runtime r = some p → medianOf runtime r = some median →
        lastOfId products p.id = some q →
          featurize runtime q = featurize runtime p ∧
            labelFor runtime q median models = labelFor runtime p median models

end Alignment

section Join

variable {runtime : Runtime} {fit : List (List Double) → List Double → Option Model}

theorem byId_eq_lastOfId (products : List CorpusProduct) (id : String) :
    (Dict.ofPairs (products.map fun p => (p.id, p))).get? id = lastOfId products id := by
  rw [Dict.get?_ofPairs, lastOfId, ← List.map_reverse, List.find?_map, Option.map_map]
  exact Option.map_id'

theorem toProduct_id {r : Row} {p : CorpusProduct} (h : toProduct runtime r = some p) :
    (r.get? "id").bind Json.asStr = some p.id := by
  unfold toProduct at h
  simp only [Option.bind_eq_bind, Option.bind_eq_some_iff] at h
  obtain ⟨id, hid, title, -, brand, -, category, -, price, -, currency, -, url, -, source, -,
    marketplace, -, hp⟩ := h
  obtain rfl := Option.some_inj.1 hp
  exact Option.bind_eq_some_iff.2 hid

/-- What the loop appends for a row comes from the last product of its id. -/
theorem labelRow_eq_some_iff {products : List CorpusProduct} {models : Dict String Model} {r : Row}
    {p : CorpusProduct} (hp : toProduct runtime r = some p) {row : LabeledRow} :
    labelRow runtime (Dict.ofPairs (products.map fun p => (p.id, p))) models r = some row ↔
      ∃ q median query, lastOfId products p.id = some q ∧ medianOf runtime r = some median ∧
        r.get? "query" = some query ∧ row = ⟨q.id, query,
          (labelFor runtime q median models).index, featurize runtime q⟩ := by
  unfold labelRow medianOf
  rw [toProduct_id hp]
  simp only [Option.bind_eq_bind, Option.bind_some, byId_eq_lastOfId, Option.bind_eq_some_iff]
  simp [eq_comm]

/-- The features stand first in the columns. -/
theorem take_columns {embedded : Option Embedded} {labeled : List LabeledRow}
    (hfeatures : ∀ row ∈ labeled, row.features.length = 3) {x : List (List Double)}
    {names : List String} (h : columnsOf embedded labeled = some (x, names)) :
    x.map (List.take 3) = labeled.map fun row => row.features := by
  have htake : ∀ row ∈ labeled, ∀ v, (row.features ++ v).take 3 = row.features :=
    fun row hrow v => List.take_left' (hfeatures row hrow)
  cases embedded with
  | none =>
      obtain ⟨rfl, -⟩ := Prod.mk.inj (Option.some_inj.1 h)
      rw [List.map_map]
      exact List.map_congr_left fun row hrow => by simpa using htake row hrow []
  | some cached =>
      simp only [columnsOf, Option.bind_eq_bind, Option.bind_eq_some_iff] at h
      obtain ⟨emb, hemb, v, -, hx⟩ := h
      obtain ⟨rfl, -⟩ := Prod.mk.inj (Option.some_inj.1 hx)
      have hlength := length_of_mapM hemb
      clear hemb hx
      induction labeled generalizing emb with
      | nil => rfl
      | cons row labeled ih =>
          cases emb with
          | nil => cases hlength
          | cons w emb =>
              rw [List.zipWith_cons_cons, List.map_cons, List.map_cons,
                htake row List.mem_cons_self]
              exact congrArg _ (ih (fun row hrow => hfeatures row (List.mem_cons_of_mem _ hrow))
                (fun row hrow => htake row (List.mem_cons_of_mem _ hrow)) emb
                (Nat.succ.inj hlength))

/-- What `build_labeled_dataset` reads before it lists its columns. -/
theorem build_eq_some {items : List Row} {embedded : Option Embedded} {data : LabeledDataset}
    (h : buildLabeledDataset runtime fit items embedded = some data) :
    ∃ products models labeled, items.mapM (toProduct runtime) = some products ∧
      perCategoryModels runtime fit products = some models ∧
        items.mapM (labelRow runtime (Dict.ofPairs (products.map fun p => (p.id, p))) models) =
            some labeled ∧
          columnsOf embedded labeled = some (data.x, data.featureNames) ∧
            data.y = labeled.map (fun row => row.y) ∧
              data.queries = labeled.map fun row => row.query := by
  simp only [buildLabeledDataset, Option.bind_eq_bind, Option.bind_eq_some_iff] at h
  obtain ⟨products, hproducts, models, hmodels, labeled, hlabeled, ⟨x, names⟩, hcolumns, hdata⟩ := h
  obtain rfl := Option.some_inj.1 hdata
  exact ⟨products, models, labeled, hproducts, hmodels, hlabeled, hcolumns, rfl, rfl⟩

/-- Each row of the dataset is made of the last product of its id, and of the row's own median
and query. -/
theorem row_of_build {items : List Row} {embedded : Option Embedded} {data : LabeledDataset}
    {products : List CorpusProduct} {models : Dict String Model}
    (hproducts : items.mapM (toProduct runtime) = some products)
    (hmodels : perCategoryModels runtime fit products = some models)
    (h : buildLabeledDataset runtime fit items embedded = some data) {i : ℕ} {r : Row}
    (hr : items[i]? = some r) :
    ∃ p q median, toProduct runtime r = some p ∧ medianOf runtime r = some median ∧
      lastOfId products p.id = some q ∧
        data.y[i]? = some (labelFor runtime q median models).index ∧
          data.x[i]?.map (List.take 3) = some (featurize runtime q) ∧
            data.queries[i]? = r.get? "query" := by
  obtain ⟨products', models', labeled, hproducts', hmodels', hlabeled, hcolumns, hy, hqueries⟩ :=
    build_eq_some h
  obtain rfl := Option.some_inj.1 (hproducts.symm.trans hproducts')
  obtain rfl := Option.some_inj.1 (hmodels.symm.trans hmodels')
  have hmade : ∀ row ∈ labeled, ∃ q, row.features = featurize runtime q := by
    intro row hrow
    obtain ⟨s, hs, hread⟩ := source_of_mapM hlabeled hrow
    obtain ⟨p, -, hp⟩ := read_of_mapM hproducts hs
    obtain ⟨q, median, query, -, -, -, rfl⟩ := (labelRow_eq_some_iff hp).1 hread
    exact ⟨q, rfl⟩
  have hx := take_columns (fun row hrow => by
    obtain ⟨q, hq⟩ := hmade row hrow
    rw [hq]
    rfl) hcolumns
  obtain ⟨p, hmem, hp⟩ := read_of_mapM hproducts (List.mem_of_getElem? hr)
  obtain ⟨row, -, hrow⟩ := read_of_mapM hlabeled (List.mem_of_getElem? hr)
  obtain ⟨q, median, query, hq, hmedian, hquery, rfl⟩ := (labelRow_eq_some_iff hp).1 hrow
  have hat := getElem?_of_mapM hlabeled i
  rw [hr, Option.bind_some, hrow] at hat
  refine ⟨p, q, median, hp, hmedian, hq, ?_, ?_, ?_⟩
  · rw [hy, List.getElem?_map, hat]
    rfl
  · rw [← List.getElem?_map, hx, List.getElem?_map, hat]
    rfl
  · rw [hqueries, List.getElem?_map, hat, hquery]
    rfl

/-- The dataset that a call returns is aligned exactly if every row shares its features and its
label with the last row of its id. -/
theorem aligned_iff {items : List Row} {embedded : Option Embedded} {data : LabeledDataset}
    (h : buildLabeledDataset runtime fit items embedded = some data) :
    Aligned runtime fit items data ↔ SharesLast runtime fit items := by
  constructor
  · intro ⟨products, models, hproducts, hmodels, _, haligned⟩ products' models' hproducts' hmodels'
      r hr p q median hp hmedian hq
    obtain rfl := Option.some_inj.1 (hproducts.symm.trans hproducts')
    obtain rfl := Option.some_inj.1 (hmodels.symm.trans hmodels')
    obtain ⟨i, hi⟩ := List.mem_iff_getElem?.1 hr
    obtain ⟨p₁, m₁, hp₁, hm₁, hlabel, hfeatures, -⟩ := haligned i r hi
    obtain ⟨p₂, q₂, m₂, hp₂, hm₂, hq₂, hy, hx, -⟩ := row_of_build hproducts hmodels h hi
    obtain rfl := Option.some_inj.1 (hp.symm.trans hp₁)
    obtain rfl := Option.some_inj.1 (hp.symm.trans hp₂)
    obtain rfl := Option.some_inj.1 (hmedian.symm.trans hm₁)
    obtain rfl := Option.some_inj.1 (hmedian.symm.trans hm₂)
    obtain rfl := Option.some_inj.1 (hq.symm.trans hq₂)
    rw [hy] at hlabel
    rw [hx] at hfeatures
    exact ⟨Option.some_inj.1 hfeatures, Label.index_injective (Option.some_inj.1 hlabel)⟩
  · intro hshares
    obtain ⟨products, models, labeled, hproducts, hmodels, hlabeled, -, hy, -⟩ := build_eq_some h
    have hlength : data.y.length = items.length := by
      rw [hy, List.length_map, length_of_mapM hlabeled]
    refine ⟨products, models, hproducts, hmodels, hlength, ?_⟩
    intro i r hr
    obtain ⟨p, q, median, hp, hmedian, hq, hlabel, hfeatures, hquery⟩ :=
      row_of_build hproducts hmodels h hr
    obtain ⟨hsameFeatures, hsameLabel⟩ := hshares products models hproducts hmodels r
      (List.mem_of_getElem? hr) p q median hp hmedian hq
    exact ⟨p, median, hp, hmedian, hsameLabel ▸ hlabel, hsameFeatures ▸ hfeatures, hquery⟩

/-- Ids that are all different align the dataset. -/
theorem sharesLast_of_nodup {items : List Row}
    (hids : ∀ products, items.mapM (toProduct runtime) = some products →
      (products.map fun p => p.id).Nodup) : SharesLast runtime fit items := by
  intro products models hproducts hmodels r hr p q median hp hmedian hq
  obtain ⟨p', hmem, hp'⟩ := read_of_mapM hproducts hr
  obtain rfl := Option.some_inj.1 (hp.symm.trans hp')
  have hqmem : q ∈ products := List.mem_reverse.1 (List.mem_of_find?_eq_some hq)
  have hid : q.id = p.id := by simpa using List.find?_some hq
  obtain rfl := List.inj_on_of_nodup_map (hids products hproducts) hqmem hmem hid
  exact ⟨rfl, rfl⟩

end Join

/-! ## Two rows with one id -/

/-- A row of headphones that a marketplace lists. -/
def listed (id title : String) (price : ℚ) : Row :=
  Dict.ofPairs [("id", .str id), ("query", .str "headphones"), ("category", .str "audio"),
    ("title", .str title), ("price", .float (.finite price)), ("url", .str ""),
    ("median_price_at_capture", .float (.finite 100))]

/-- Two rows of different ids are labeled each as its own. -/
theorem aligned_two :
    ∃ data, buildLabeledDataset plainRuntime (fun _ _ => none)
        [listed "h1" "Bose QC45" 60, listed "h2" "Bose QC45 used" 120] none = some data ∧
      (Aligned plainRuntime (fun _ _ => none)
          [listed "h1" "Bose QC45" 60, listed "h2" "Bose QC45 used" 120] data ↔
        SharesLast plainRuntime (fun _ _ => none)
          [listed "h1" "Bose QC45" 60, listed "h2" "Bose QC45 used" 120]) := by
  have hbuilt : (buildLabeledDataset plainRuntime (fun _ _ => none)
      [listed "h1" "Bose QC45" 60, listed "h2" "Bose QC45 used" 120] none).isSome := by
    decide +kernel
  obtain ⟨data, hdata⟩ := Option.isSome_iff_exists.1 hbuilt
  exact ⟨data, hdata, aligned_iff hdata⟩

/-- Two rows of one id pass the gate, and the used headphones are described as the new ones. -/
theorem repeated_id_misaligned :
    ¬ ∀ (runtime : Runtime) (schema : Schema runtime)
      (fit : List (List Double) → List Double → Option Model) (items : List Row)
      (embedded : Option Embedded) (data : LabeledDataset), GateReturns schema items →
        buildLabeledDataset runtime fit items embedded = some data →
          Aligned runtime fit items data := by
  intro hall
  have hgate : GateReturns plainSchema
      [listed "h1" "Bose QC45 used" 60, listed "h1" "Bose QC45" 300] := by
    rw [gateReturns_iff]
    decide +kernel
  have hbuilt : (buildLabeledDataset plainRuntime (fun _ _ => none)
      [listed "h1" "Bose QC45 used" 60, listed "h1" "Bose QC45" 300] none).map
        (fun data => data.x) = some [[.finite 3, .finite 4, .finite 2],
          [.finite 3, .finite 4, .finite 2]] := by
    decide +kernel
  obtain ⟨data, hdata, hx⟩ := Option.map_eq_some_iff.1 hbuilt
  obtain ⟨products, models, -, -, -, haligned⟩ := hall _ plainSchema _ _ none data hgate hdata
  obtain ⟨p, median, hp, -, hat⟩ := haligned 0 _ rfl
  have hown : (toProduct plainRuntime (listed "h1" "Bose QC45 used" 60)).map
      (featurize plainRuntime) = some [.finite 3, .finite 4, .finite 0] := by
    decide +kernel
  have hfeatures := hat.features
  rw [hp, Option.map_some, Option.some_inj] at hown
  rw [hx, hown] at hfeatures
  exact absurd hfeatures (by decide)

end DealFinder.Pipeline
