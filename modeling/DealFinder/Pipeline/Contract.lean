/-
# The data contract

`validate_contract` reads every row of a snapshot against `SnapshotRow`, and
`quality_gate` raises unless every row is valid. Both validators are comparisons, which a
NaN never fails and an infinity passes, so the gate keeps numbers that order nothing
(`gate_orders_iff`).
-/

import DealFinder.Feeds.Json
import DealFinder.Shop.Score

namespace DealFinder.Pipeline

open DealFinder.Math DealFinder.Feeds

/-- A row of a snapshot: its columns. -/
abbrev Row := Dict String Json

/-- `KNOWN_CATEGORIES`. -/
def knownCategories : List String := Shop.categoryCodes.map Prod.fst

/-- `REQUIRED_COLUMNS`. -/
def requiredColumns : List String :=
  ["id", "query", "category", "title", "price", "median_price_at_capture"]

/-- What the schema library makes of the value of a `float` field: at least what `float`
accepts, and as the same number. -/
structure Schema (runtime : Runtime) where
  float : Json → Option Double
  lax : ∀ v x, floatOf runtime v = some x → float v = some x

section Contract

variable {runtime : Runtime} (schema : Schema runtime)

/-! ## A row -/

/-- A field declared `str`. -/
def textField (r : Row) (column : String) : Option String := (r.get? column).bind Json.asStr

/-- A field declared `float`. -/
def floatField (r : Row) (column : String) : Option Double := (r.get? column).bind schema.float

/-- `_price_positive`. -/
def pricePositive (v : Double) : Option { v : Double // v.atMost (.finite 0) = false } :=
  if h : v.atMost (.finite 0) = false then some ⟨v, h⟩ else none

/-- `_category_known`. -/
def categoryKnown (v : String) : Option { v : String // v ∈ knownCategories } :=
  if h : v ∈ knownCategories then some ⟨v, h⟩ else none

/-- `SnapshotRow`. -/
structure SnapshotRow where
  id : String
  query : String
  category : { v : String // v ∈ knownCategories }
  title : String
  price : { v : Double // v.atMost (.finite 0) = false }
  medianPriceAtCapture : Double

/-- The row that the columns make, if every field is read. -/
def readRow (r : Row) : Option SnapshotRow := do
  let id ← textField r "id"
  let query ← textField r "query"
  let category ← (textField r "category").bind categoryKnown
  let title ← textField r "title"
  let price ← (floatField schema r "price").bind pricePositive
  let median ← floatField schema r "median_price_at_capture"
  return ⟨id, query, category, title, price, median⟩

/-- How many fields are not read. -/
def fieldErrors (r : Row) : ℕ :=
  [(textField r "id").isNone, (textField r "query").isNone,
    ((textField r "category").bind categoryKnown).isNone, (textField r "title").isNone,
    ((floatField schema r "price").bind pricePositive).isNone,
    (floatField schema r "median_price_at_capture").isNone].count true

/-- `SnapshotRow.model_validate`, with the first line of the error. -/
def modelValidate (r : Row) : Except String SnapshotRow :=
  match readRow schema r with
  | some row => .ok row
  | none =>
      .error (toString (fieldErrors schema r) ++ " validation error" ++
        (if fieldErrors schema r = 1 then "" else "s") ++ " for SnapshotRow")

/-! ## A snapshot -/

/-- `ContractReport`. -/
structure ContractReport where
  total : ℕ
  valid : ℕ
  violations : List Json := []

/-- `ContractReport.passed`. -/
def ContractReport.passed (report : ContractReport) : Bool :=
  0 < report.total && report.valid = report.total

/-- A record of a violation. -/
def violation (r : Row) (error : String) : Json :=
  .obj [("id", (r.get? "id").getD .null), ("error", .str error)]

/-- The body of the loop of `validate_contract`. -/
def contractStep (report : ContractReport) (r : Row) : ContractReport :=
  let missing := requiredColumns.filter fun c => c ∉ r
  if missing ≠ [] then
    { report with
      violations := report.violations ++
        [violation r ("missing columns: " ++ strOf runtime (.arr (missing.map .str)))] }
  else
    match modelValidate schema r with
    | .ok _ => { report with valid := report.valid + 1 }
    | .error error => { report with violations := report.violations ++ [violation r error] }

/-- `validate_contract`. -/
def validateContract (rows : List Row) : ContractReport :=
  rows.foldl (contractStep schema) ⟨rows.length, 0, []⟩

/-- `quality_gate`: the report, or the message of the `DataContractError`. -/
def qualityGate (rows : List Row) : Except String ContractReport :=
  let report := validateContract schema rows
  if report.passed then .ok report
  else
    .error ("contract failed: " ++ toString report.valid ++ "/" ++ toString report.total ++
      " rows valid; first violation: " ++ strOf runtime (report.violations.head?.getD .null))

/-- The gate returns. -/
def GateReturns (rows : List Row) : Prop := ∃ report, qualityGate schema rows = .ok report

/-! ## What the gate should let through -/

/-- A row of ordered numbers: every required column, a known category, a finite price above
zero and a finite median. -/
structure OrderedRow (r : Row) : Prop where
  columns : ∀ c ∈ requiredColumns, c ∈ r
  category : ∃ v ∈ knownCategories, textField r "category" = some v
  price : ∃ x, floatField schema r "price" = some (.finite x) ∧ 0 < x
  median : ∃ x, floatField schema r "median_price_at_capture" = some (.finite x)

/-- A row that is refused whatever its numbers are worth. -/
def Refused (r : Row) : Prop :=
  (∃ c ∈ requiredColumns, c ∉ r) ∨
    (∃ c ∈ ["id", "query", "category", "title"], textField r c = none) ∨
      (∃ v, textField r "category" = some v ∧ v ∉ knownCategories) ∨
        floatField schema r "price" = none ∨
          (∃ x, floatField schema r "price" = some x ∧ x.atMost (.finite 0) = true) ∨
            floatField schema r "median_price_at_capture" = none

/-- A row with a price that is a NaN or the positive infinity, or a median that is a NaN or
an infinity. -/
def Unordered (r : Row) : Prop :=
  floatField schema r "price" = some .nan ∨ floatField schema r "price" = some (.inf false) ∨
    floatField schema r "median_price_at_capture" = some .nan ∨
      ∃ negative, floatField schema r "median_price_at_capture" = some (.inf negative)

end Contract

section Gate

variable {runtime : Runtime} {schema : Schema runtime}

/-! ## The report -/

/-- A row that adds to the count of valid ones. -/
def Valid (schema : Schema runtime) (r : Row) : Bool :=
  requiredColumns.all (fun c => c ∈ r) && (readRow schema r).isSome

/-- A row is counted as valid or recorded as a violation. -/
theorem contractStep_spec (report : ContractReport) (r : Row) :
    (contractStep schema report r).total = report.total ∧
      (contractStep schema report r).valid = report.valid + (if Valid schema r then 1 else 0) ∧
        (contractStep schema report r).violations.length =
          report.violations.length + (if Valid schema r then 0 else 1) := by
  have hmissing : requiredColumns.filter (fun c => c ∉ r) = [] ↔
      requiredColumns.all (fun c => c ∈ r) = true := by
    simp [List.filter_eq_nil_iff]
  unfold contractStep
  dsimp only
  by_cases hall : requiredColumns.all (fun c => c ∈ r) = true
  · rw [if_neg (not_not.2 (hmissing.2 hall))]
    cases hread : readRow schema r with
    | some row => simp [modelValidate, hread, Valid, hall]
    | none => simp [modelValidate, hread, Valid, hall]
  · rw [if_pos fun h => hall (hmissing.1 h)]
    simp [Valid, hall]

theorem foldl_contractStep (rows : List Row) (report : ContractReport) :
    (rows.foldl (contractStep schema) report).total = report.total ∧
      (rows.foldl (contractStep schema) report).valid =
        report.valid + rows.countP (Valid schema) ∧
      (rows.foldl (contractStep schema) report).violations.length =
        report.violations.length + rows.countP fun r => !Valid schema r := by
  induction rows generalizing report with
  | nil => simp
  | cons r rest ih =>
      obtain ⟨htotal, hvalid, hviolations⟩ := @contractStep_spec runtime schema report r
      obtain ⟨ihtotal, ihvalid, ihviolations⟩ := ih (contractStep schema report r)
      rw [List.foldl_cons, ihtotal, ihvalid, ihviolations, htotal, hvalid, hviolations,
        List.countP_cons, List.countP_cons]
      cases Valid schema r <;> simp <;> omega

/-- The report counts every row, as valid or as a violation. -/
theorem validateContract_spec (rows : List Row) :
    (validateContract schema rows).total = rows.length ∧
      (validateContract schema rows).valid = rows.countP (Valid schema) ∧
        (validateContract schema rows).valid + (validateContract schema rows).violations.length =
          (validateContract schema rows).total := by
  obtain ⟨htotal, hvalid, hviolations⟩ :=
    @foldl_contractStep runtime schema rows ⟨rows.length, 0, []⟩
  have hsplit : rows.countP (Valid schema) + rows.countP (fun r => !Valid schema r) =
      rows.length := by
    rw [List.length_eq_countP_add_countP (Valid schema)]
    simp
  unfold validateContract
  rw [htotal, hvalid, hviolations]
  dsimp only
  rw [List.length_nil, Nat.zero_add, Nat.zero_add]
  exact ⟨rfl, rfl, hsplit⟩

theorem gateReturns_iff (rows : List Row) :
    GateReturns schema rows ↔ rows ≠ [] ∧ ∀ r ∈ rows, Valid schema r = true := by
  obtain ⟨htotal, hvalid, -⟩ := @validateContract_spec runtime schema rows
  have hpassed : (validateContract schema rows).passed = true ↔
      rows ≠ [] ∧ ∀ r ∈ rows, Valid schema r = true := by
    unfold ContractReport.passed
    rw [htotal, hvalid, Bool.and_eq_true, decide_eq_true_eq, decide_eq_true_eq,
      List.length_pos_iff, List.countP_eq_length]
  rw [← hpassed]
  unfold GateReturns qualityGate
  dsimp only
  split_ifs with h
  · exact iff_of_true ⟨_, rfl⟩ h
  · exact iff_of_false (fun ⟨_, hreport⟩ => by cases hreport) h

/-! ## What a valid row has -/

theorem bind_pricePositive_isSome (price : Option Double) :
    (price.bind pricePositive).isSome ↔ ∃ x, price = some x ∧ x.atMost (.finite 0) = false := by
  cases price with
  | none => simp
  | some x => by_cases hx : x.atMost (.finite 0) = false <;> simp [pricePositive, hx]

theorem bind_categoryKnown_isSome (category : Option String) :
    (category.bind categoryKnown).isSome ↔ ∃ v ∈ knownCategories, category = some v := by
  cases category with
  | none => simp
  | some v => by_cases hv : v ∈ knownCategories <;> simp [categoryKnown, hv]

theorem readRow_isSome (r : Row) :
    (readRow schema r).isSome ↔
      (textField r "id").isSome ∧ (textField r "query").isSome ∧ (textField r "title").isSome ∧
        (∃ v ∈ knownCategories, textField r "category" = some v) ∧
          (∃ x, floatField schema r "price" = some x ∧ x.atMost (.finite 0) = false) ∧
            (floatField schema r "median_price_at_capture").isSome := by
  rw [← bind_categoryKnown_isSome, ← bind_pricePositive_isSome]
  unfold readRow
  cases textField r "id" <;> cases textField r "query" <;> cases textField r "title" <;>
    cases (textField r "category").bind categoryKnown <;>
    cases (floatField schema r "price").bind pricePositive <;>
    cases floatField schema r "median_price_at_capture" <;> simp

/-- The contract refuses a row exactly for what it lacks. -/
theorem valid_iff_not_refused (r : Row) : Valid schema r = true ↔ ¬ Refused schema r := by
  have hcolumns : requiredColumns.all (fun c => c ∈ r) = true ↔
      ¬ ∃ c ∈ requiredColumns, c ∉ r := by simp
  have htext : ∀ c, (textField r c).isSome ↔ ¬ textField r c = none := fun c =>
    Option.ne_none_iff_isSome.symm
  have hmedian : (floatField schema r "median_price_at_capture").isSome ↔
      ¬ floatField schema r "median_price_at_capture" = none := Option.ne_none_iff_isSome.symm
  have hcategory : (∃ v ∈ knownCategories, textField r "category" = some v) ↔
      ¬ textField r "category" = none ∧
        ¬ ∃ v, textField r "category" = some v ∧ v ∉ knownCategories := by
    cases textField r "category" with
    | none => simp
    | some v => simp
  have hprice : (∃ x, floatField schema r "price" = some x ∧ x.atMost (.finite 0) = false) ↔
      ¬ floatField schema r "price" = none ∧
        ¬ ∃ x, floatField schema r "price" = some x ∧ x.atMost (.finite 0) = true := by
    cases floatField schema r "price" with
    | none => simp
    | some x => simp
  have htexts : (∃ c ∈ ["id", "query", "category", "title"], textField r c = none) ↔
      textField r "id" = none ∨ textField r "query" = none ∨ textField r "category" = none ∨
        textField r "title" = none := by simp
  unfold Valid Refused
  rw [Bool.and_eq_true, readRow_isSome, hcolumns, htext, htext, htext, hmedian, hcategory, hprice,
    htexts]
  simp only [not_or]
  constructor
  · intro ⟨hall, hid, hquery, htitle, ⟨htext, hknown⟩, ⟨hfloat, hpositive⟩, hread⟩
    exact ⟨hall, ⟨hid, hquery, htext, htitle⟩, hknown, hfloat, hpositive, hread⟩
  · intro ⟨hall, ⟨hid, hquery, htext, htitle⟩, hknown, hfloat, hpositive, hread⟩
    exact ⟨hall, hid, hquery, htitle, ⟨htext, hknown⟩, ⟨hfloat, hpositive⟩, hread⟩

/-- The numbers of a row that is not refused are ordered unless one of them is a NaN or an
infinity. -/
theorem orderedRow_iff {r : Row} (h : ¬ Refused schema r) :
    OrderedRow schema r ↔ ¬ Unordered schema r := by
  have hvalid := (valid_iff_not_refused r).2 h
  obtain ⟨hcolumns, hread⟩ := Bool.and_eq_true_iff.1 hvalid
  obtain ⟨-, -, -, hcategory, ⟨x, hx, hpositive⟩, hmedian⟩ := (readRow_isSome r).1 hread
  obtain ⟨m, hm⟩ := Option.isSome_iff_exists.1 hmedian
  have hnumbers : OrderedRow schema r ↔
      (∃ y, x = .finite y ∧ 0 < y) ∧ ∃ y, m = .finite y := by
    constructor
    · intro hrow
      obtain ⟨y, hy, hlt⟩ := hrow.price
      obtain ⟨z, hz⟩ := hrow.median
      rw [hx, Option.some_inj] at hy
      rw [hm, Option.some_inj] at hz
      exact ⟨⟨y, hy, hlt⟩, z, hz⟩
    · intro ⟨⟨y, hy, hlt⟩, z, hz⟩
      exact ⟨by simpa using hcolumns, hcategory, ⟨y, hy ▸ hx, hlt⟩, ⟨z, hz ▸ hm⟩⟩
  rw [hnumbers]
  unfold Unordered
  rw [hx, hm]
  cases x with
  | nan => simp
  | inf negative => cases negative <;> simp_all [Double.atMost, Double.less]
  | finite y =>
      have hlt : 0 < y := by simpa using hpositive
      cases m <;> simp [hlt]

/-- The gate lets only ordered numbers through exactly if it has nothing to let through, or
refuses some row, or no row holds a NaN or an infinity. -/
theorem gate_orders_iff (rows : List Row) :
    (GateReturns schema rows → rows ≠ [] ∧ ∀ r ∈ rows, OrderedRow schema r) ↔
      rows = [] ∨ (∃ r ∈ rows, Refused schema r) ∨ ∀ r ∈ rows, ¬ Unordered schema r := by
  have hgate : GateReturns schema rows ↔ rows ≠ [] ∧ ∀ r ∈ rows, ¬ Refused schema r := by
    rw [gateReturns_iff]
    simp only [valid_iff_not_refused]
  rw [hgate]
  constructor
  · intro h
    by_cases hempty : rows = []
    · exact .inl hempty
    by_cases hrefused : ∃ r ∈ rows, Refused schema r
    · exact .inr (.inl hrefused)
    have hkept : ∀ r ∈ rows, ¬ Refused schema r := fun r hr hbad => hrefused ⟨r, hr, hbad⟩
    exact .inr (.inr fun r hr => (orderedRow_iff (hkept r hr)).1 ((h ⟨hempty, hkept⟩).2 r hr))
  · intro h ⟨hempty, hkept⟩
    rcases h with h | ⟨r, hr, hbad⟩ | h
    · exact absurd h hempty
    · exact absurd hbad (hkept r hr)
    · exact ⟨hempty, fun r hr => (orderedRow_iff (hkept r hr)).2 (h r hr)⟩

end Gate

/-! ## A price that is no number -/

/-- A `float` field that accepts what `float` does. -/
def plainSchema : Schema plainRuntime := ⟨floatOf plainRuntime, fun _ _ => id⟩

/-- A row of headphones. -/
def headphonesRow (price median : Double) : Row :=
  Dict.ofPairs [("id", .str "h1"), ("query", .str "headphones"), ("category", .str "audio"),
    ("title", .str "Bose QuietComfort 45"), ("price", .float price),
    ("median_price_at_capture", .float median)]

/-- The gate lets a price through that is a NaN. -/
theorem nan_price_passes :
    ¬ ∀ (runtime : Runtime) (schema : Schema runtime) (rows : List Row),
      GateReturns schema rows → rows ≠ [] ∧ ∀ r ∈ rows, OrderedRow schema r := by
  intro hall
  have hgate : GateReturns plainSchema [headphonesRow .nan (.finite 100)] := by
    rw [gateReturns_iff]
    decide +kernel
  obtain ⟨x, hx, -⟩ := ((hall _ plainSchema _ hgate).2 _ (List.mem_singleton.2 rfl)).price
  have hnan : floatField plainSchema (headphonesRow .nan (.finite 100)) "price" = some .nan := by
    decide +kernel
  rw [hnan] at hx
  cases hx

end DealFinder.Pipeline
