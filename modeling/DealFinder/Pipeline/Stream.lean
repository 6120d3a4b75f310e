/-
# The search stream

`_stream_search` asks the sources in turn and yields a frame for each that raises or that has rows
to show, and behind them a frame with the figures of the cheapest row of each key. A frame is JSON
on one line, so whoever reads the text finds the events that were sent (`readEvents_frames`).
-/

import DealFinder.Feeds.JsonWrite
import DealFinder.Math.Frames
import DealFinder.Pipeline.Ingest
import DealFinder.Shop.Search

namespace DealFinder.Pipeline

open DealFinder.Math DealFinder.Feeds DealFinder.Shop

/-! ## The median -/

/-- `x + y`. -/
def add : Double → Double → Double
  | .nan, _ => .nan
  | _, .nan => .nan
  | .inf negative, .inf negative' => if negative = negative' then .inf negative else .nan
  | .inf negative, .finite _ => .inf negative
  | .finite _, .inf negative => .inf negative
  | .finite x, .finite y => .nearest (x + y)

/-- `statistics.median` of a nonempty list. -/
def medianPrice (data : List Double) : Double :=
  let sorted := data.insertionSort fun x y => y.less x = false
  let half := data.length / 2
  if data.length % 2 = 1 then sorted.getD half .nan
  else (add (sorted.getD (half - 1) .nan) (sorted.getD half .nan)).div (.finite 2)

/-- `round(x, 2)`, which is the double nearest to the cents. -/
def round2 (x : Double) : Double :=
  match x.roundCents with
  | .finite cents => .nearest cents
  | x => x

/-- `round(statistics.median(rated), 2) if rated else 0.0`. -/
def ratedMedian (rated : List Double) : Double :=
  if rated = [] then .finite 0 else round2 (medianPrice rated)

/-! ## The stream -/

/-- A live source. An answer that is missing raises, and the inner one may be `None`. -/
structure LiveSource where
  name : Option String
  available : Option Bool
  search : String → Option (Option (List CatalogProduct))

/-- `getattr(src, "name", "?")`. -/
def LiveSource.label (src : LiveSource) : String := src.name.getD "?"

/-- What `try` leaves in `found`. A source that is not available is left as one without rows is. -/
def LiveSource.found (src : LiveSource) (query : String) : Option (List CatalogProduct) := do
  let available ← src.available
  if available then
    let found ← src.search query
    return found.getD []
  else return []

/-- A row of a `results` event. -/
def rowJson (p : CatalogProduct) : Json :=
  .obj [("id", .str p.id), ("title", .str p.title), ("price", .float p.price),
    ("source", .str p.source), ("url", .str p.url), ("image_url", dumpText p.imageUrl)]

/-- An attribution as it is sent. -/
def attributionJson (a : Attribution) : Json :=
  .obj [("source", .str a.source), ("text", .str a.text), ("url", .str a.url),
    ("logo", .str a.logo)]

/-- What the loop over the sources has seen, and the frames that it has yielded. -/
structure Streaming where
  seen : Dict String CatalogProduct
  frames : List (List Char)

section Stream

variable (runtime : Runtime)

/-- `_sse`. -/
def sse (event : Option String) (data : Json) : List Char :=
  let lead := match event with
    | some event => if event = "" then [] else "event: ".toList ++ event.toList ++ ['\n']
    | none => []
  lead ++ "data: ".toList ++ dumps runtime data ++ ['\n', '\n']

/-- The body of the loop over the rows of a source, with `seen` and `batch`. -/
def rowStep (state : Dict String CatalogProduct × List Json) (p : CatalogProduct) :
    Dict String CatalogProduct × List Json :=
  if mayComingle p.source then (ingestStep runtime state.1 p, state.2 ++ [rowJson p]) else state

/-- The body of the loop over the sources. -/
def sourceStep (query : String) (state : Streaming) (src : LiveSource) : Streaming :=
  match src.found query with
  | none =>
      let frame := sse runtime (some "source_error") (.obj [("source", .str src.label)])
      ⟨state.seen, state.frames ++ [frame]⟩
  | some found =>
      let (seen, batch) := found.foldl (rowStep runtime) (state.seen, [])
      if batch.isEmpty then ⟨seen, state.frames⟩
      else
        let frame := sse runtime (some "results")
          (.obj [("source", .str src.label), ("results", .arr batch)])
        ⟨seen, state.frames ++ [frame]⟩

/-- `_stream_search`, with the value of `DEALFINDER_VERDICT_MODE`: the frames that it yields. -/
def streamSearch (raw : Option String) (query : String) (sources : List LiveSource) :
    List (List Char) :=
  let state := sources.foldl (sourceStep runtime query) ⟨Dict.empty, []⟩
  let items := state.seen.values
  let rated := (items.filter fun p => mayVerdict p.source).map fun p => p.price
  let median := if verdictMode raw = .check then none else some (ratedMedian rated)
  let attribution := attributionFor (items.map fun p => p.source)
  state.frames ++ [sse runtime (some "done")
    (.obj [("query", .str query), ("count", .int items.length),
      ("median_price", median.elim .null .float),
      ("attribution", .arr (attribution.map attributionJson))])]

/-! ## What should be sent -/

/-- The figures of the last event. -/
structure Done where
  query : String
  count : ℕ
  medianPrice : Option Double
  attribution : List Attribution

/-- An event of the stream. -/
inductive StreamEvent
  | sourceError (source : String)
  | results (source : String) (rows : List CatalogProduct)
  | done (figures : Done)

/-- The name of an event. -/
def StreamEvent.name : StreamEvent → String
  | sourceError _ => "source_error"
  | results _ _ => "results"
  | done _ => "done"

/-- The data of an event. -/
def StreamEvent.data : StreamEvent → Json
  | sourceError source => .obj [("source", .str source)]
  | results source rows => .obj [("source", .str source), ("results", .arr (rows.map rowJson))]
  | done figures =>
      .obj [("query", .str figures.query), ("count", .int figures.count),
        ("median_price", figures.medianPrice.elim .null .float),
        ("attribution", .arr (figures.attribution.map attributionJson))]

/-- The frame of an event. -/
def StreamEvent.frame (event : StreamEvent) : List Char := sse runtime (some event.name) event.data

/-- A source raises when it is asked whether it is available, or when it is and searches. -/
def LiveSource.Raises (src : LiveSource) (query : String) : Prop :=
  src.available = none ∨ src.available = some true ∧ src.search query = none

instance (src : LiveSource) (query : String) : Decidable (src.Raises query) :=
  inferInstanceAs (Decidable (_ ∨ _))

/-- The rows that a source answers if it is available. -/
def LiveSource.rows (src : LiveSource) (query : String) : List CatalogProduct :=
  if src.available = some true then ((src.search query).getD none).getD [] else []

/-- The rows of a source that may be mixed. -/
def LiveSource.mixable (src : LiveSource) (query : String) : List CatalogProduct :=
  (src.rows query).filter fun p => mayComingle p.source

/-- The events of a source: an error if it raises, or else its rows that may be mixed, if any. -/
def LiveSource.events (src : LiveSource) (query : String) : List StreamEvent :=
  if src.Raises query then [.sourceError src.label]
  else if (src.mixable query).isEmpty then []
  else [.results src.label (src.mixable query)]

/-- The figures of some rows: the number of keys, and the median of the prices of the cheapest row
of each key, of those that may be rated. -/
structure Concludes (raw : Option String) (query : String) (rows : List CatalogProduct)
    (figures : Done) : Prop where
  query_eq : figures.query = query
  count_eq : figures.count = (rows.map (dedupKey runtime)).toFinset.card
  live : verdictMode raw = .live →
    ∃ products, OnePerKey runtime [rows.filter fun p => mayVerdict p.source] products ∧
      figures.medianPrice = some (ratedMedian (products.map fun p => p.price))
  check : verdictMode raw = .check → figures.medianPrice = none

/-! ## Reading the stream -/

/-- The value of a field: what follows its name, a colon and a blank. -/
def fieldOf (name : String) (lines : List (List Char)) : Option String :=
  lines.findSome? fun line =>
    if line.takeWhile (· ≠ ':') = name.toList then
      let value := (line.dropWhile (· ≠ ':')).tail
      some (String.ofList (if value.head? = some ' ' then value.tail else value))
    else none

/-- The event of a frame, with its data. -/
def readEvent (lines : List (List Char)) : Option (String × Json) := do
  let event := (fieldOf "event" lines).getD "message"
  let data ← fieldOf "data" lines
  return (event, ← loads data)

/-- The events of a text. -/
def readEvents (text : List Char) : Option (List (String × Json)) :=
  (framesOf '\n' text).mapM readEvent

/-- The events of some sources in order, and the figures behind them. -/
def eventsOf (query : String) (sources : List LiveSource) (figures : Done) : List StreamEvent :=
  (sources.flatMap fun src => src.events query) ++ [.done figures]

/-- The stream of some sources: the frames of their events, with the figures of all rows that may
be mixed, and the text of the frames is read as these events. -/
structure IsStream (raw : Option String) (query : String) (sources : List LiveSource)
    (frames : List (List Char)) (figures : Done) : Prop where
  concludes : Concludes runtime raw query (sources.flatMap fun src => src.mixable query) figures
  sent : frames = (eventsOf query sources figures).map (StreamEvent.frame runtime)
  readable : readEvents frames.flatten =
    some ((eventsOf query sources figures).map fun event => (event.name, event.data))

/-- The prices of the rows that a source answers are finite floats. -/
def FinitePrices (query : String) (sources : List LiveSource) : Prop :=
  ∀ src ∈ sources, ∀ found, src.search query = some (some found) →
    ∀ p ∈ found, isFinite p.price = true ∧ p.price.IsFloat

end Stream

section Streamed

variable {runtime : Runtime} {query : String} {sources : List LiveSource}

/-! ## The events that are sent -/

/-- What `try` leaves of a source. -/
theorem found_eq (src : LiveSource) :
    src.found query = if src.Raises query then none else some (src.rows query) := by
  rw [LiveSource.found, LiveSource.rows]
  cases havailable : src.available with
  | none => simp [LiveSource.Raises, havailable]
  | some available =>
      cases available with
      | false => simp [LiveSource.Raises, havailable]
      | true => cases hsearch : src.search query <;> simp [LiveSource.Raises, havailable, hsearch]

/-- A source that raises has no rows. -/
theorem rows_of_raises {src : LiveSource} (h : src.Raises query) : src.rows query = [] := by
  rw [LiveSource.rows]
  rcases h with hnone | ⟨-, hsearch⟩
  · simp [hnone]
  · simp [hsearch]

/-- The rows of a source go into `seen` and into the batch if they may be mixed. -/
theorem foldl_rowStep (found : List CatalogProduct) (seen : Dict String CatalogProduct)
    (batch : List Json) :
    found.foldl (rowStep runtime) (seen, batch) =
      ((found.filter fun p => mayComingle p.source).foldl (ingestStep runtime) seen,
        batch ++ (found.filter fun p => mayComingle p.source).map rowJson) := by
  induction found generalizing seen batch with
  | nil => rw [List.filter_nil, List.map_nil, List.append_nil]; rfl
  | cons p found ih =>
      rw [List.foldl_cons, rowStep]
      by_cases hmay : mayComingle p.source = true
      · have hfilter : ((p :: found).filter fun p => mayComingle p.source) =
            p :: found.filter fun p => mayComingle p.source := by
          simp only [List.filter_cons, hmay, if_true]
        rw [if_pos hmay, ih, hfilter, List.foldl_cons, List.map_cons, List.append_assoc,
          List.singleton_append]
      · have hfilter : ((p :: found).filter fun p => mayComingle p.source) =
            found.filter fun p => mayComingle p.source := by
          simp only [List.filter_cons, hmay, if_false, Bool.false_eq_true]
        rw [if_neg hmay, ih, hfilter]

/-- What a source does: its rows are seen, and its events are sent. -/
theorem sourceStep_eq (state : Streaming) (src : LiveSource) :
    sourceStep runtime query state src =
      ⟨(src.mixable query).foldl (ingestStep runtime) state.seen,
        state.frames ++ (src.events query).map (StreamEvent.frame runtime)⟩ := by
  rw [sourceStep, found_eq, LiveSource.events, LiveSource.mixable]
  by_cases hraises : src.Raises query
  · rw [if_pos hraises, if_pos hraises, rows_of_raises hraises]
    rfl
  · rw [if_neg hraises, if_neg hraises]
    simp only [foldl_rowStep, List.nil_append, List.isEmpty_map]
    split_ifs
    · rw [List.map_nil, List.append_nil]
    · rfl

/-- What all sources do. -/
theorem foldl_sourceStep (state : Streaming) :
    sources.foldl (sourceStep runtime query) state =
      ⟨(sources.flatMap fun src => src.mixable query).foldl (ingestStep runtime) state.seen,
        state.frames ++
          (sources.flatMap fun src => src.events query).map (StreamEvent.frame runtime)⟩ := by
  induction sources generalizing state with
  | nil => simp
  | cons src sources ih =>
      rw [List.foldl_cons, sourceStep_eq, ih, List.flatMap_cons, List.flatMap_cons,
        List.foldl_append, List.map_append, List.append_assoc]

/-- The figures that the stream closes with, of the rows that are kept. -/
def doneOf (raw : Option String) (query : String) (items : List CatalogProduct) : Done where
  query := query
  count := items.length
  medianPrice :=
    if verdictMode raw = .check then none
    else some (ratedMedian ((items.filter fun p => mayVerdict p.source).map fun p => p.price))
  attribution := attributionFor (items.map fun p => p.source)

theorem streamSearch_eq (raw : Option String) :
    streamSearch runtime raw query sources =
      (eventsOf query sources (doneOf raw query
        (ingest runtime [sources.flatMap fun src => src.mixable query]))).map
          (StreamEvent.frame runtime) := by
  rw [streamSearch, foldl_sourceStep, eventsOf, List.map_append]
  rfl

/-! ## The figures -/

/-- The products that are kept are rows. -/
theorem OnePerKey.mem_rows {rows products : List CatalogProduct}
    (h : OnePerKey runtime [rows] products) {p : CatalogProduct} (hp : p ∈ products) :
    p ∈ rows := by
  have hmem := (h.cheapest p hp).mem
  rwa [List.flatten_singleton] at hmem

/-- One product for each key is as many products as there are keys. -/
theorem OnePerKey.length_eq {rows products : List CatalogProduct}
    (h : OnePerKey runtime [rows] products) :
    products.length = (rows.map (dedupKey runtime)).toFinset.card := by
  have hsame : (products.map (dedupKey runtime)).toFinset =
      (rows.map (dedupKey runtime)).toFinset := by
    ext key
    rw [List.mem_toFinset, List.mem_toFinset, List.mem_map, List.mem_map]
    constructor
    · intro ⟨p, hp, hkey⟩
      exact ⟨p, h.mem_rows hp, hkey⟩
    · intro ⟨p, hp, hkey⟩
      rw [← List.flatten_singleton (l := rows)] at hp
      obtain ⟨q, hq, hsame⟩ := h.covered p hp
      exact ⟨q, hq, hsame.trans hkey⟩
  rw [← hsame, List.toFinset_card_of_nodup h.different, List.length_map]

theorem concludes_doneOf (raw : Option String) {rows : List CatalogProduct}
    (hmay : ∀ p ∈ rows, mayComingle p.source = true) (hprice : ∀ p ∈ rows, p.price ≠ .nan) :
    Concludes runtime raw query rows (doneOf raw query (ingest runtime [rows])) := by
  have hone : OnePerKey runtime [rows] (ingest runtime [rows]) := by
    apply onePerKey_of_comparable
    rw [List.flatten_singleton]
    exact hprice
  have hall : ∀ {l : List CatalogProduct}, (∀ p ∈ l, p ∈ rows) →
      (l.filter fun p => mayVerdict p.source) = l := by
    intro l hl
    rw [List.filter_eq_self]
    exact fun p hp => mayVerdict_of_mayComingle (hmay p (hl p hp))
  have hitems : ∀ p ∈ ingest runtime [rows], p ∈ rows := fun p hp => hone.mem_rows hp
  refine ⟨rfl, hone.length_eq, fun hlive => ?_, fun hcheck => if_pos hcheck⟩
  have hmode : verdictMode raw ≠ .check := by
    rw [hlive]
    decide
  have hmedian : (doneOf raw query (ingest runtime [rows])).medianPrice =
      some (ratedMedian ((ingest runtime [rows]).map fun p => p.price)) := by
    rw [doneOf, if_neg hmode, hall hitems]
  rw [hall fun p hp => hp]
  exact ⟨_, hone, hmedian⟩

/-! ## The events that are read -/

/-- The lines of the frame of an event. -/
def StreamEvent.lines (runtime : Runtime) (event : StreamEvent) : List (List Char) :=
  ["event: ".toList ++ event.name.toList, "data: ".toList ++ dumps runtime event.data]

/-- The floats of an event are floats. -/
def StreamEvent.HasFloats (event : StreamEvent) : Prop := Feeds.HasFloats event.data

theorem sse_of_ne {event : String} (h : event ≠ "") (data : Json) :
    sse runtime (some event) data =
      "event: ".toList ++ event.toList ++ ['\n'] ++ "data: ".toList ++ dumps runtime data ++
        ['\n', '\n'] := by
  have hlead : (if event = "" then [] else "event: ".toList ++ event.toList ++ ['\n']) =
      "event: ".toList ++ event.toList ++ ['\n'] := if_neg h
  exact congrArg (· ++ "data: ".toList ++ dumps runtime data ++ ['\n', '\n']) hlead

theorem StreamEvent.frame_eq (event : StreamEvent) :
    event.frame runtime = frameText '\n' (event.lines runtime) := by
  have hname : event.name ≠ "" := by
    cases event <;> simp [StreamEvent.name]
  rw [StreamEvent.frame, sse_of_ne hname]
  simp only [frameText, StreamEvent.lines, List.flatMap_cons, List.flatMap_nil, List.append_assoc,
    List.append_nil, List.cons_append, List.nil_append]

theorem fieldOf_event (value : List Char) (rest : List (List Char)) :
    fieldOf "event" (("event: ".toList ++ value) :: rest) = some (String.ofList value) := rfl

theorem fieldOf_data (value value' : List Char) :
    fieldOf "data" ["event: ".toList ++ value', "data: ".toList ++ value] =
      some (String.ofList value) := rfl

variable (hrepr : ReprReads runtime)

include hrepr

/-- A frame is read as its event. -/
theorem readEvent_lines {event : StreamEvent} (h : event.HasFloats) :
    readEvent (event.lines runtime) = some (event.name, event.data) := by
  rw [readEvent, StreamEvent.lines, fieldOf_event, fieldOf_data, Option.getD_some,
    String.ofList_toList]
  simp only [Option.bind_eq_bind, Option.bind_some, loads_dumps hrepr h]
  rfl

/-- The lines of a frame are not blank, and end where the frame has them end. -/
theorem StreamEvent.lines_spec {event : StreamEvent} (h : event.HasFloats) :
    ∀ line ∈ event.lines runtime, line ≠ [] ∧ '\n' ∉ line := by
  have hname : '\n' ∉ event.name.toList := by
    cases event <;> simp [StreamEvent.name]
  have hdata := newline_not_mem_dumps hrepr event.data h
  intro line hline
  rcases List.mem_cons.1 hline with rfl | hline
  · exact ⟨List.cons_ne_nil _ _, by simp [hname]⟩
  · rw [List.mem_singleton.1 hline]
    exact ⟨List.cons_ne_nil _ _, by simp [hdata]⟩

/-- The text of some frames is read as their events. -/
theorem readEvents_frames {events : List StreamEvent} (h : ∀ event ∈ events, event.HasFloats) :
    readEvents (events.map (StreamEvent.frame runtime)).flatten =
      some (events.map fun event => (event.name, event.data)) := by
  have htext : (events.map (StreamEvent.frame runtime)).flatten =
      (events.map (StreamEvent.lines runtime)).flatMap (frameText '\n') := by
    rw [List.flatMap_map, ← List.flatMap_def]
    exact congrArg events.flatMap (funext StreamEvent.frame_eq)
  have hframes : framesOf '\n' (events.map (StreamEvent.frame runtime)).flatten =
      events.map (StreamEvent.lines runtime) := by
    rw [htext]
    apply framesOf_flatMap
    · intro lines hlines
      obtain ⟨event, -, rfl⟩ := List.mem_map.1 hlines
      exact List.cons_ne_nil _ _
    · intro lines hlines
      obtain ⟨event, hevent, rfl⟩ := List.mem_map.1 hlines
      exact StreamEvent.lines_spec hrepr (h event hevent)
  rw [readEvents, hframes]
  exact mapM_map fun event hevent => readEvent_lines hrepr (h event hevent)

omit hrepr

/-! ## The floats that are sent -/

theorem isFloat_round2 (x : Double) : (round2 x).IsFloat := by
  cases x with
  | nan => trivial
  | inf negative => trivial
  | finite x => exact Double.isFloat_nearest _

theorem isFloat_ratedMedian (rated : List Double) : (ratedMedian rated).IsFloat := by
  rw [ratedMedian]
  split_ifs
  · decide +kernel
  · exact isFloat_round2 _

theorem hasFloats_dumpText (s : Option String) : Feeds.HasFloats (dumpText s) := by
  cases s <;> trivial

theorem hasFloats_rowJson {p : CatalogProduct} (h : p.price.IsFloat) :
    Feeds.HasFloats (rowJson p) :=
  ⟨trivial, trivial, h, trivial, trivial, hasFloats_dumpText p.imageUrl, trivial⟩

theorem hasFloats_done {figures : Done} (h : ∀ x, figures.medianPrice = some x → x.IsFloat) :
    (StreamEvent.done figures).HasFloats := by
  have hmedian : Feeds.HasFloats (figures.medianPrice.elim .null .float) := by
    cases hprice : figures.medianPrice with
    | none => trivial
    | some x => exact h x hprice
  have hattribution : HaveFloats (figures.attribution.map attributionJson) :=
    haveFloats_map fun _ _ => ⟨trivial, trivial, trivial, trivial, trivial⟩
  exact ⟨trivial, trivial, hmedian, hattribution, trivial⟩

/-- The rows that may be mixed are among those that a source answers. -/
theorem price_of_mixable (h : FinitePrices query sources) {src : LiveSource} (hsrc : src ∈ sources)
    {p : CatalogProduct} (hp : p ∈ src.mixable query) :
    mayComingle p.source = true ∧ isFinite p.price = true ∧ p.price.IsFloat := by
  obtain ⟨hp, hmay⟩ := List.mem_filter.1 hp
  refine ⟨hmay, ?_⟩
  rw [LiveSource.rows] at hp
  split_ifs at hp
  · cases hsearch : src.search query with
    | none => simp [hsearch] at hp
    | some answer =>
        cases answer with
        | none => simp [hsearch] at hp
        | some found =>
            rw [hsearch] at hp
            exact h src hsrc found hsearch p hp
  · exact absurd hp List.not_mem_nil

theorem hasFloats_events (h : FinitePrices query sources) {src : LiveSource} (hsrc : src ∈ sources)
    {event : StreamEvent} (hevent : event ∈ src.events query) : event.HasFloats := by
  rw [LiveSource.events] at hevent
  split_ifs at hevent
  · rw [List.mem_singleton.1 hevent]
    exact ⟨trivial, trivial⟩
  · exact absurd hevent List.not_mem_nil
  · rw [List.mem_singleton.1 hevent]
    have hrows : HaveFloats ((src.mixable query).map rowJson) :=
      haveFloats_map fun p hp => hasFloats_rowJson (price_of_mixable h hsrc hp).2.2
    exact ⟨trivial, hrows, trivial⟩

include hrepr

/-- Whatever the sources do, the stream is that of their events and of the figures of their rows,
and it is read as such. -/
theorem isStream_streamSearch (raw : Option String) (h : FinitePrices query sources) :
    ∃ figures, IsStream runtime raw query sources (streamSearch runtime raw query sources)
      figures := by
  have hrows : ∀ p ∈ sources.flatMap fun src => src.mixable query,
      mayComingle p.source = true ∧ isFinite p.price = true ∧ p.price.IsFloat := by
    intro p hp
    obtain ⟨src, hsrc, hmem⟩ := List.mem_flatMap.1 hp
    exact price_of_mixable h hsrc hmem
  have hnan : ∀ p ∈ sources.flatMap fun src => src.mixable query, p.price ≠ .nan := by
    intro p hp hnan
    have hfinite := (hrows p hp).2.1
    rw [hnan] at hfinite
    cases hfinite
  have hconcludes := @concludes_doneOf runtime query raw _ (fun p hp => (hrows p hp).1) hnan
  refine ⟨_, hconcludes, streamSearch_eq raw, ?_⟩
  rw [streamSearch_eq]
  apply readEvents_frames hrepr
  intro event hevent
  rcases List.mem_append.1 hevent with hevent | hlast
  · obtain ⟨src, hsrc, hmem⟩ := List.mem_flatMap.1 hevent
    exact hasFloats_events h hsrc hmem
  · rw [List.mem_singleton.1 hlast]
    apply hasFloats_done
    intro x hx
    rw [doneOf] at hx
    split_ifs at hx
    rw [← Option.some_inj.1 hx]
    exact isFloat_ratedMedian _

end Streamed

/-! ## A stream of two stores -/

/-- The runtime that writes a float in full. -/
def exactRuntime : Runtime :=
  { plainRuntime with
    repr := fun
      | .float (.finite x) => String.ofList (decimalText x)
      | _ => "" }

theorem reprReads_exactRuntime : ReprReads exactRuntime where
  reads x hx := by
    have htext : (exactRuntime.repr (.float (.finite x))).toList = decimalText x :=
      String.toList_ofList
    rw [htext]
    exact scanNumber_decimalText hx
  line x _ := by
    have htext : (exactRuntime.repr (.float (.finite x))).toList = decimalText x :=
      String.toList_ofList
    rw [htext]
    exact newline_not_mem_decimalText x

/-- A source that raises, one that is not available, and one with rows of two stores. -/
def mixedSources : List LiveSource :=
  [⟨some "Flaky", none, fun _ => none⟩, ⟨some "Off", some false, fun _ => some none⟩,
    ⟨some "Mixed", some true, fun _ => some (some
      [product "bb1" "Sony \"WH-1000XM5\"\n" "BestBuy" (.finite 100),
        product "bb2" "Bose QC45" "BestBuy:sale" (.finite (405 / 2)),
        product "eb1" "EBAY ONLY" "eBay:Used" (.finite 1)])⟩]

theorem finitePrices_mixedSources (query : String) : FinitePrices query mixedSources := by
  intro src hsrc found hfound p hp
  have hfloats : (Double.finite 100).IsFloat ∧ (Double.finite (405 / 2)).IsFloat ∧
      (Double.finite 1).IsFloat := by
    decide +kernel
  simp only [mixedSources, List.mem_cons, List.not_mem_nil, or_false] at hsrc
  rcases hsrc with rfl | rfl | rfl
  · cases hfound
  · cases hfound
  · obtain rfl := Option.some_inj.1 (Option.some_inj.1 hfound)
    simp only [List.mem_cons, List.not_mem_nil, or_false] at hp
    rcases hp with rfl | rfl | rfl
    · exact ⟨rfl, hfloats.1⟩
    · exact ⟨rfl, hfloats.2.1⟩
    · exact ⟨rfl, hfloats.2.2⟩

theorem isStream_mixedSources :
    ∃ figures, IsStream exactRuntime none "head phones" mixedSources
      (streamSearch exactRuntime none "head phones" mixedSources) figures :=
  isStream_streamSearch reprReads_exactRuntime none (finitePrices_mixedSources "head phones")

end DealFinder.Pipeline
