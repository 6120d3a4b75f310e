/-
# The table of good deals

The pipeline normalizes the rows of a snapshot, gates and labels them, runs the view
`good_deals.sql`, and writes the view to a file, field after field with commas between
them. The file is no table as soon as an id or a query of the view holds a comma, a double
quote or a line break (`persisted_reads_back_iff`).
-/

import DealFinder.Math.Csv
import DealFinder.Pipeline.Dataset

namespace DealFinder.Pipeline

open DealFinder.Math DealFinder.Feeds

/-- A row of `good_deals.sql`, with the columns that are written. -/
structure ViewRow where
  id : String
  query : String
  category : String
  price : Double
  medianPriceAtCapture : Double
  medianDealPct : Double
  deriving DecidableEq

/-- A value that `sqlite3` binds. -/
def bindable : Json → Bool
  | .int n => -2 ^ 63 ≤ n && n < 2 ^ 63
  | .arr _ => false
  | .obj _ => false
  | _ => true

/-- `f"{x:.4f}"`. -/
def fourDecimals : Double → String
  | .nan => "nan"
  | .inf negative => if negative then "-inf" else "inf"
  | .finite x => Shop.fixed 4 x

/-- What the pipeline returns, with the text of the file in place of its path. -/
structure FlowResult where
  ingested : ℕ
  normalized : ℕ
  contract : ContractReport
  labeled : ℕ
  labelDistribution : List (Label × ℕ)
  goodDeals : ℕ
  persisted : Option String

section Pipeline

variable (runtime : Runtime) (schema : Schema runtime)
  (fit : List (List Double) → List Double → Option Model)

/-! ## Stages -/

/-- `normalize_rows`, of one row. -/
def normalizeRow (r : Row) : Option Row := do
  let title ← r.get? "title"
  let brand ←
    if title.truthy then title.asStr.map (Features.titleBrand runtime.toUnicode) else some none
  return r.set "true_brand" (brand.elim .null .str)

/-- The tuple that `run_good_deals_model` inserts, and what the view computes of it. -/
def viewRow (r : Row) : Option ViewRow := do
  let id ← textField r "id"
  let query ← textField r "query"
  let category ← textField r "category"
  let _title ← textField r "title"
  guard (bindable ((r.get? "brand").getD .null))
  let price ← (r.get? "price").bind (floatOf runtime)
  let median ← medianOf runtime r
  return ⟨id, query, category, price, median, (median.sub price).div median⟩

/-- The `WHERE` of `good_deals.sql`, where a NaN is a `NULL`. -/
def inView (d : ViewRow) : Bool :=
  (Double.finite 0).less d.price && (Double.finite 0).less d.medianPriceAtCapture &&
    (Double.nearest (10 / 100)).atMost d.medianDealPct &&
      d.medianDealPct.atMost (.nearest (90 / 100))

/-- `run_good_deals_model`: the best deal first. -/
def runGoodDealsModel (rows : List Row) : Option (List ViewRow) := do
  let products ← rows.mapM (viewRow runtime)
  return (products.filter inView).insertionSort fun d d' =>
    d'.medianDealPct.atMost d.medianDealPct = true

/-! ## The file -/

/-- The header. -/
def header : String := "id,query,category,price,median_deal_pct"

/-- A line of the file. -/
def csvLine (d : ViewRow) : String :=
  d.id ++ "," ++ d.query ++ "," ++ d.category ++ "," ++ strOf runtime (.float d.price) ++ "," ++
    fourDecimals d.medianDealPct

/-- The text of `good_deals.csv`. -/
def goodDealsCsv (deals : List ViewRow) : String :=
  "\n".intercalate (header :: deals.map (csvLine runtime)) ++ "\n"

/-- `LabeledDataset.label_distribution`. -/
def labelDistribution (data : LabeledDataset) : List (Label × ℕ) :=
  Label.all.map fun label => (label, data.y.count label.index)

/-- `_run_pipeline`, of the rows of the snapshot. -/
def runPipeline (rows : List Row) (persist : Bool) : Option FlowResult := do
  let normalized ← rows.mapM (normalizeRow runtime)
  let report ← (qualityGate schema normalized).toOption
  let data ← buildLabeledDataset runtime fit rows none
  let deals ← runGoodDealsModel runtime normalized
  return { ingested := rows.length
           normalized := normalized.length
           contract := report
           labeled := data.y.length
           labelDistribution := labelDistribution data
           goodDeals := deals.length
           persisted := if persist then some (goodDealsCsv runtime deals) else none }

/-! ## Reading the file -/

/-- The view over the rows of a snapshot. -/
def goodDealsOf (rows : List Row) : Option (List ViewRow) := do
  let normalized ← rows.mapM (normalizeRow runtime)
  runGoodDealsModel runtime normalized

/-- The record of a row of the view. -/
def record (d : ViewRow) : List (List Char) :=
  [d.id.toList, d.query.toList, d.category.toList, (strOf runtime (.float d.price)).toList,
    (fourDecimals d.medianDealPct).toList]

/-- The record of the header. -/
def headerRecord : List (List Char) :=
  ["id".toList, "query".toList, "category".toList, "price".toList, "median_deal_pct".toList]

/-- The file is read as a header and one record for each row of the view, in order. -/
def ReadsBack (rows : List Row) (result : FlowResult) : Prop :=
  ∃ view text, goodDealsOf runtime rows = some view ∧ result.persisted = some text ∧
    Csv.parse text.toList = some (headerRecord :: view.map (record runtime))

/-- The text of a float is made of digits, a point, signs, an exponent, or spells an
infinity or a NaN. -/
def PlainNumbers : Prop :=
  ∀ x : Double, ∀ c ∈ (runtime.repr (.float x)).toList, c.isDigit = true ∨ c ∈ ".+-einfa".toList

end Pipeline

section File

variable {runtime : Runtime} {schema : Schema runtime}
  {fit : List (List Double) → List Double → Option Model}

theorem isText_of_isDigit {c : Char} (h : c.isDigit = true) : Csv.isText c = true := by
  have hne : ∀ d : Char, d.isDigit = false → c ≠ d := fun d hd heq => by
    rw [heq, hd] at h
    cases h
  simp [Csv.isText, hne ',' rfl, hne '"' rfl, hne '\r' rfl, hne '\n' rfl]

theorem isText_fourDecimals (x : Double) : (fourDecimals x).toList.all Csv.isText = true := by
  cases x with
  | nan => decide
  | inf negative => cases negative <;> decide
  | finite x =>
      rw [List.all_eq_true]
      intro c hc
      rcases Rag.mem_fixed hc with hdigit | rfl | rfl
      · exact isText_of_isDigit hdigit
      · rfl
      · rfl

theorem isText_price (hnumbers : PlainNumbers runtime) (x : Double) :
    (strOf runtime (.float x)).toList.all Csv.isText = true := by
  have hmarks : ".+-einfa".toList.all Csv.isText = true := by decide
  rw [List.all_eq_true] at hmarks ⊢
  intro c hc
  rcases hnumbers x c hc with hdigit | hmark
  · exact isText_of_isDigit hdigit
  · exact hmarks c hmark

theorem isText_category {v : String} (h : v ∈ knownCategories) :
    v.toList.all Csv.isText = true := by
  have hall : knownCategories.all (fun v => v.toList.all Csv.isText) = true := by decide +kernel
  exact List.all_eq_true.1 hall v h

/-- The file is written line by line, and never quotes. -/
theorem goodDealsCsv_eq_write (deals : List ViewRow) :
    (goodDealsCsv runtime deals).toList =
      Csv.write (headerRecord :: deals.map (record runtime)) := by
  have hheader : Csv.line headerRecord = header.toList ++ ['\n'] := by decide
  have hline : ∀ d, Csv.line (record runtime d) = (csvLine runtime d).toList ++ ['\n'] := by
    intro d
    simp [Csv.line, record, csvLine, List.intercalate_cons_cons]
  have hlines : ∀ (first : List Char) (rest : List (List Char)),
      ['\n'].intercalate (first :: rest) ++ ['\n'] =
        (first :: rest).flatMap fun l => l ++ ['\n'] := by
    intro first rest
    induction rest generalizing first with
    | nil => simp
    | cons next rest ih =>
        rw [List.intercalate_cons_cons, List.append_assoc, ih, List.flatMap_cons]
        simp
  have hnewline : "\n".toList = ['\n'] := rfl
  unfold goodDealsCsv
  rw [String.toList_append, String.toList_intercalate, List.map_cons, hnewline, hlines, Csv.write,
    List.flatMap_cons, List.flatMap_cons, hheader, List.map_map, List.flatMap_map,
    List.flatMap_map]
  simp only [hline, Function.comp_apply]

/-! ## Rows of the view -/

theorem viewRow_category {r : Row} {d : ViewRow} (h : viewRow runtime r = some d) :
    textField r "category" = some d.category := by
  simp only [viewRow, Option.bind_eq_bind, Option.bind_eq_some_iff] at h
  obtain ⟨id, -, query, -, category, hcategory, title, -, _, -, price, -, median, -, hd⟩ := h
  obtain rfl := Option.some_inj.1 hd
  exact hcategory

/-- A row of the view comes from a row that was gated. -/
theorem category_of_view {rows : List Row} {view : List ViewRow}
    (hgate : GateReturns schema rows) (hview : runGoodDealsModel runtime rows = some view)
    {d : ViewRow} (hd : d ∈ view) : d.category ∈ knownCategories := by
  simp only [runGoodDealsModel, Option.bind_eq_bind, Option.bind_eq_some_iff] at hview
  obtain ⟨products, hproducts, hsorted⟩ := hview
  obtain rfl := Option.some_inj.1 hsorted
  rw [List.mem_insertionSort, List.mem_filter] at hd
  obtain ⟨r, hr, hrow⟩ := source_of_mapM hproducts hd.1
  have hvalid := ((gateReturns_iff rows).1 hgate).2 r hr
  obtain ⟨-, hread⟩ := Bool.and_eq_true_iff.1 hvalid
  obtain ⟨-, -, -, ⟨v, hv, hcategory⟩, -⟩ := (readRow_isSome r).1 hread
  rw [viewRow_category hrow] at hcategory
  exact Option.some_inj.1 hcategory ▸ hv

theorem plain_headerRecord : Csv.Plain headerRecord := by decide

/-- Of the fields of a gated row only the id and the query may need quotes. -/
theorem plain_record_iff (hnumbers : PlainNumbers runtime) {d : ViewRow}
    (hcategory : d.category ∈ knownCategories) :
    Csv.Plain (record runtime d) ↔
      d.id.toList.all Csv.isText = true ∧ d.query.toList.all Csv.isText = true := by
  have hprice := isText_price hnumbers d.price
  have hpct := isText_fourDecimals d.medianDealPct
  have hknown := isText_category hcategory
  unfold Csv.Plain record
  rw [List.forall_mem_cons, List.forall_mem_cons, List.forall_mem_cons, List.forall_mem_cons,
    List.forall_mem_singleton]
  exact ⟨fun h => ⟨h.1, h.2.1⟩, fun h => ⟨h.1, h.2, hknown, hprice, hpct⟩⟩

/-- What a run of the pipeline writes. -/
theorem runPipeline_eq_some {rows : List Row} {result : FlowResult}
    (h : runPipeline runtime schema fit rows true = some result) :
    ∃ normalized view, rows.mapM (normalizeRow runtime) = some normalized ∧
      GateReturns schema normalized ∧ runGoodDealsModel runtime normalized = some view ∧
        goodDealsOf runtime rows = some view ∧
          result.persisted = some (goodDealsCsv runtime view) := by
  simp only [runPipeline, Option.bind_eq_bind, Option.bind_eq_some_iff] at h
  obtain ⟨normalized, hnormalized, report, hreport, data, -, view, hview, hresult⟩ := h
  obtain rfl := Option.some_inj.1 hresult
  have hgate : GateReturns schema normalized := by
    cases hgate : qualityGate schema normalized with
    | ok report => exact ⟨report, hgate⟩
    | error message =>
        rw [hgate] at hreport
        cases hreport
  have hof : goodDealsOf runtime rows = some view := by
    rw [goodDealsOf, hnormalized]
    exact hview
  exact ⟨normalized, view, hnormalized, hgate, hview, hof, rfl⟩

/-- The file that a run leaves is read back exactly if no id and no query of the view needs
quotes. -/
theorem persisted_reads_back_iff (hnumbers : PlainNumbers runtime) {rows : List Row}
    {result : FlowResult} (h : runPipeline runtime schema fit rows true = some result) :
    ReadsBack runtime rows result ↔
      ∀ view, goodDealsOf runtime rows = some view → ∀ d ∈ view,
        d.id.toList.all Csv.isText = true ∧ d.query.toList.all Csv.isText = true := by
  obtain ⟨normalized, view, -, hgate, hview, hof, hpersisted⟩ := runPipeline_eq_some h
  have hne : ∀ r ∈ headerRecord :: view.map (record runtime), r ≠ [] := by
    intro r hr
    rcases List.mem_cons.1 hr with rfl | hr
    · exact List.cons_ne_nil _ _
    · obtain ⟨d, -, rfl⟩ := List.mem_map.1 hr
      exact List.cons_ne_nil _ _
  have hrows : ReadsBack runtime rows result ↔
      ∀ r ∈ headerRecord :: view.map (record runtime), Csv.Plain r := by
    rw [← Csv.parse_write_iff hne, ← goodDealsCsv_eq_write]
    constructor
    · intro ⟨view', text, hview', htext, hparse⟩
      obtain rfl := Option.some_inj.1 (hof.symm.trans hview')
      obtain rfl := Option.some_inj.1 (hpersisted.symm.trans htext)
      exact hparse
    · intro hparse
      exact ⟨view, _, hof, hpersisted, hparse⟩
  have hplain : ∀ d ∈ view, Csv.Plain (record runtime d) ↔
      d.id.toList.all Csv.isText = true ∧ d.query.toList.all Csv.isText = true := fun d hd =>
    plain_record_iff hnumbers (category_of_view hgate hview hd)
  rw [hrows, List.forall_mem_cons, List.forall_mem_map]
  constructor
  · intro ⟨_, hall⟩ view' hview' d hd
    obtain rfl := Option.some_inj.1 (hof.symm.trans hview')
    exact (hplain d hd).1 (hall d hd)
  · intro hall
    exact ⟨plain_headerRecord, fun d hd => (hplain d hd).2 (hall view hof d hd)⟩

end File

/-! ## A query with a comma -/

/-- The runtime, with the texts of floats that one decimal spells. -/
def printing : Runtime :=
  { plainRuntime with
    repr := fun v =>
      match v with
      | .float (.finite x) => Shop.fixed 1 x
      | .float .nan => "nan"
      | .float (.inf negative) => if negative then "-inf" else "inf"
      | _ => "" }

theorem plainNumbers_printing : PlainNumbers printing := by
  have hword : ∀ s : String, s.toList.all (fun c => decide (c ∈ ".+-einfa".toList)) = true →
      ∀ c ∈ s.toList, c.isDigit = true ∨ c ∈ ".+-einfa".toList := fun s hs c hc =>
    .inr (of_decide_eq_true (List.all_eq_true.1 hs c hc))
  intro x c hc
  cases x with
  | nan => exact hword "nan" (by decide) c hc
  | inf negative =>
      cases negative
      · exact hword "inf" (by decide) c hc
      · exact hword "-inf" (by decide) c hc
  | finite x =>
      rcases Rag.mem_fixed hc with hdigit | rfl | rfl
      · exact .inl hdigit
      · exact .inr (by decide)
      · exact .inr (by decide)

/-- A `float` field that accepts what `float` does. -/
def printingSchema : Schema printing := ⟨floatOf printing, fun _ _ => id⟩

/-- A row of headphones, found by a query. -/
def found (query : String) : Row := (listed "h1" "Bose QC45" 60).set "query" (.str query)

/-- A query of one word is read back. -/
theorem persisted_reads_back_headphones :
    ∃ result, runPipeline printing printingSchema (fun _ _ => none) [found "headphones"] true =
        some result ∧
      (ReadsBack printing [found "headphones"] result ↔
        ∀ view, goodDealsOf printing [found "headphones"] = some view → ∀ d ∈ view,
          d.id.toList.all Csv.isText = true ∧ d.query.toList.all Csv.isText = true) := by
  have hruns : (runPipeline printing printingSchema (fun _ _ => none) [found "headphones"]
      true).isSome := by
    decide +kernel
  obtain ⟨result, hresult⟩ := Option.isSome_iff_exists.1 hruns
  exact ⟨result, hresult, persisted_reads_back_iff plainNumbers_printing hresult⟩

/-- A query with a comma makes six fields of five. -/
theorem comma_shifts_fields :
    ¬ ∀ (runtime : Runtime) (schema : Schema runtime)
      (fit : List (List Double) → List Double → Option Model) (rows : List Row)
      (result : FlowResult), PlainNumbers runtime →
        runPipeline runtime schema fit rows true = some result →
          ReadsBack runtime rows result := by
  intro hall
  have hfile : (runPipeline printing printingSchema (fun _ _ => none)
      [found "headphones, wireless"] true).bind (fun result => result.persisted) =
        some ("id,query,category,price,median_deal_pct\n" ++
          "h1,headphones, wireless,audio,60.0,0.4000\n") := by
    decide +kernel
  obtain ⟨result, hresult, hpersisted⟩ := Option.bind_eq_some_iff.1 hfile
  obtain ⟨view, text, hview, htext, hparse⟩ :=
    hall _ printingSchema _ _ result plainNumbers_printing hresult
  have hfive : ((goodDealsOf printing [found "headphones, wireless"]).map fun view =>
      view.map fun d => (record printing d).length) = some [5] := by
    decide +kernel
  have hsix : (Csv.parse ("id,query,category,price,median_deal_pct\n" ++
      "h1,headphones, wireless,audio,60.0,0.4000\n").toList).map (List.map List.length) =
        some [5, 6] := by
    decide +kernel
  rw [hview, Option.map_some, Option.some_inj] at hfive
  obtain rfl := Option.some_inj.1 (hpersisted.symm.trans htext)
  have hlengths := congrArg (Option.map (List.map List.length)) hparse
  rw [Option.map_some, List.map_cons, List.map_map] at hlengths
  have hboth := hsix.symm.trans hlengths
  rw [show List.map (List.length ∘ record printing) view = [5] from hfive] at hboth
  exact absurd hboth (by decide)

end DealFinder.Pipeline
