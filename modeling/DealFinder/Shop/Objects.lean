/-
# Aggregation of objects

`aggregate` keeps the time a source answered under the `id` of each product it returned.
Here a product is an object of a heap, the passes move objects, and a row is written from
an object at the end. While no object is returned twice, each row has the time of the call
that returned its object, so the run on objects gives the rows of the run on values
(`aggregateObjects_eq`).
-/

import DealFinder.Shop.Calls
import DealFinder.Shop.Components
import Mathlib.Data.List.Flatten

namespace DealFinder.Shop

open DealFinder.Math

/-! ## The code -/

/-- The objects of the process, by identity. -/
abbrev Heap := ℕ → Product

/-- `_utc_iso`, of a time as its date and clock are written. -/
def utcIso (written : String) : String := written ++ "Z"

/-- What a source does with a query: the objects it returns and when, or its failure. -/
inductive Returned
  | found (objects : List ℕ) (answeredAt : String)
  | failed
  | late

/-- A source, and what it does with queries. -/
structure ObjectSource where
  name : String
  available : Bool
  tier : Option ℤ
  fallbackOnly : Option Bool
  search : String → Returned

/-- `products` and `fetched`, the sources queried, and `live`, `throttled` and `timed_out`. -/
structure Fetched where
  products : List ℕ
  fetched : Dict ℕ String
  asked : List ObjectSource
  live : List String
  throttled : List String
  timedOut : List String

/-- Nothing is fetched yet. -/
def Fetched.empty : Fetched := ⟨[], Dict.empty, [], [], [], []⟩

/-- The body of the loop of `run`. -/
def collectObjects (query : String) (g : Fetched) (src : ObjectSource) : Fetched :=
  match src.search query with
  | .late => { g with
      asked := g.asked ++ [src]
      throttled := g.throttled ++ [src.name]
      timedOut := g.timedOut ++ [src.name] }
  | .failed => { g with asked := g.asked ++ [src], throttled := g.throttled ++ [src.name] }
  | .found objects answeredAt =>
      if objects = [] then { g with asked := g.asked ++ [src] }
      else { g with
        asked := g.asked ++ [src]
        live := g.live ++ [src.name]
        products := g.products ++ objects
        fetched := objects.foldl (fun d r => d.set r (utcIso answeredAt)) g.fetched }

/-- `run`. -/
def runObjects (query : String) (g : Fetched) (batch : List ObjectSource) : Fetched :=
  batch.foldl (collectObjects query) g

/-- `_tier`. -/
def ObjectSource.tierOf (s : ObjectSource) : ℤ := s.tier.getD 5

/-- `_is_fallback`. -/
def ObjectSource.isFallback (s : ObjectSource) : Bool := s.fallbackOnly.getD false

section Code

variable (services : Services) (settings : Settings) (heap : Heap)

/-- `len({dedup_key(p) for p in products}) >= target`. -/
def enoughObjects (products : List ℕ) : Bool :=
  settings.target ≤ ((products.map fun r => dedupKey services (heap r)).toFinset.card : ℤ)

/-- The loop over the tiers. -/
def escalateObjects (query : String) (real : List ObjectSource) : List ℤ → Fetched → Fetched
  | [], g => g
  | tier :: rest, g =>
      let g := runObjects query g (real.filter fun s => s.tierOf = tier)
      if enoughObjects services settings heap g.products then g
      else escalateObjects query real rest g

/-- `benched`. -/
def benchedObjects (sources : List ObjectSource) : List String :=
  ((sources.filter ObjectSource.available).filter fun s => settings.benched s.name).map
    ObjectSource.name

/-- `available`. -/
def usableObjects (sources : List ObjectSource) : List ObjectSource :=
  (sources.filter ObjectSource.available).filter fun s =>
    s.name ∉ benchedObjects settings sources

/-- `real`. -/
def realObjects (sources : List ObjectSource) : List ObjectSource :=
  (usableObjects settings sources).filter fun s => !s.isFallback

/-- `sorted({_tier(s) for s in real})`. -/
def tiersObjects (sources : List ObjectSource) : List ℤ :=
  ((realObjects settings sources).map ObjectSource.tierOf).dedup.insertionSort (· ≤ ·)

/-- What `aggregate` starts from: the objects of the tiers, or else of the fallbacks. -/
def fetchObjects (query : String) (sources : List ObjectSource) : Fetched :=
  let g := escalateObjects services settings heap query (realObjects settings sources)
    (tiersObjects settings sources) Fetched.empty
  if g.products = [] then
    runObjects query g ((usableObjects settings sources).filter ObjectSource.isFallback)
  else g

/-- The body of the exact-key pass. -/
def keepBestObject (best : Dict String ℕ) (r : ℕ) : Dict String ℕ :=
  match best.get? (dedupKey services (heap r)) with
  | none => best.set (dedupKey services (heap r)) r
  | some kept =>
      if (heap r).price < (heap kept).price then best.set (dedupKey services (heap r)) r else best

/-- `list(best.values())`. -/
def bestObjects (products : List ℕ) : List ℕ :=
  (products.foldl (keepBestObject services heap) Dict.empty).values

/-- `fetched.get(id(p)) or _utc_iso(now)`. -/
def stampOf (now : String) (fetched : Dict ℕ String) (r : ℕ) : String :=
  ((fetched.get? r).filter fun stamp => stamp ≠ "").getD (utcIso now)

/-- A run of `aggregate`: what it fetched, the survivors of both passes, those it ranks, and
what it returns. -/
structure ObjectRun where
  gathered : Fetched
  items : List ℕ
  ranked : List ℕ
  result : Aggregated

/-- `aggregate`, its loops on enough fuel. -/
def aggregateObjects (now query : String) (sources : List ObjectSource) : Option ObjectRun :=
  let gathered := fetchObjects services settings heap query sources
  let best := bestObjects services heap gathered.products
  (dedupItems services (fun r => (heap r).title) (fun r => (heap r).price)
      ((places best.length).length + 1) best).map fun kept =>
    let items := kept.1
    let median := medianOrZero (items.map fun r => (heap r).price)
    let ranked := (items.insertionSort fun r s => (heap r).price ≤ (heap s).price).take
      settings.limit
    { gathered := gathered
      items := items
      ranked := ranked
      result :=
        { query := query
          sourcesLive := gathered.live
          throttled := gathered.throttled
          timedOut := gathered.timedOut
          benched := benchedObjects settings sources
          medianPrice := roundTo 2 median
          count := ranked.length
          results := ranked.map fun r =>
            toOffer median ⟨heap r, stampOf now gathered.fetched r⟩ } }

end Code

/-! ## What a run fetches -/

section Fetching

/-- The objects a source returns in time. -/
def objectsOf (query : String) (src : ObjectSource) : List ℕ :=
  match src.search query with
  | .found objects _ => objects
  | _ => []

/-- The objects a source returns in time, with its stamp. -/
def stampsOf (query : String) (src : ObjectSource) : List (ℕ × String) :=
  match src.search query with
  | .found objects answeredAt => objects.map fun r => (r, utcIso answeredAt)
  | _ => []

theorem map_fst_stampsOf (query : String) (src : ObjectSource) :
    (stampsOf query src).map Prod.fst = objectsOf query src := by
  unfold stampsOf objectsOf
  cases src.search query with
  | found objects answeredAt => simp [Function.comp_def]
  | failed => rfl
  | late => rfl

/-- What is fetched is what the sources queried returned, each object with its stamp. -/
structure Traced (query : String) (g : Fetched) : Prop where
  products : g.products = g.asked.flatMap (objectsOf query)
  fetched : g.fetched = Dict.ofPairs (g.asked.flatMap (stampsOf query))

theorem Traced.empty (query : String) : Traced query Fetched.empty := ⟨rfl, rfl⟩

theorem Traced.collect {query : String} {g : Fetched} (h : Traced query g) (src : ObjectSource) :
    Traced query (collectObjects query g src) ∧
      (collectObjects query g src).asked = g.asked ++ [src] := by
  unfold collectObjects
  cases hsearch : src.search query with
  | late =>
      refine ⟨⟨?_, ?_⟩, rfl⟩
      · simp [h.products, objectsOf, hsearch]
      · simp [h.fetched, stampsOf, hsearch]
  | failed =>
      refine ⟨⟨?_, ?_⟩, rfl⟩
      · simp [h.products, objectsOf, hsearch]
      · simp [h.fetched, stampsOf, hsearch]
  | found objects answeredAt =>
      dsimp only
      split_ifs with hempty
      · refine ⟨⟨?_, ?_⟩, rfl⟩
        · simp [h.products, objectsOf, hsearch, hempty]
        · simp [h.fetched, stampsOf, hsearch, hempty]
      · refine ⟨⟨?_, ?_⟩, rfl⟩
        · simp [h.products, objectsOf, hsearch]
        · simp [h.fetched, stampsOf, hsearch, Dict.ofPairs, List.foldl_append, List.foldl_map]

theorem Traced.run {query : String} {g : Fetched} (h : Traced query g) (batch : List ObjectSource) :
    Traced query (runObjects query g batch) ∧
      (runObjects query g batch).asked = g.asked ++ batch := by
  induction batch generalizing g with
  | nil => exact ⟨h, (List.append_nil _).symm⟩
  | cons src rest ih =>
      obtain ⟨hcollect, hasked⟩ := h.collect src
      obtain ⟨hrest, hall⟩ := ih hcollect
      refine ⟨hrest, ?_⟩
      rw [hasked, List.append_assoc] at hall
      exact hall

theorem nodup_tiersObjects {settings : Settings} (sources : List ObjectSource) :
    (tiersObjects settings sources).Nodup :=
  (List.perm_insertionSort (· ≤ ·) _).nodup_iff.2 (List.nodup_dedup _)

/-- The sources of a tier and those of other tiers are the sources of them all. -/
theorem perm_filter_tiers (real : List ObjectSource) {tier : ℤ} {rest : List ℤ}
    (hnew : tier ∉ rest) :
    ((real.filter fun s => s.tierOf = tier) ++ real.filter fun s => s.tierOf ∈ rest).Perm
      (real.filter fun s => s.tierOf ∈ tier :: rest) := by
  have hparts := List.filter_append_perm (fun s : ObjectSource => s.tierOf = tier)
    (real.filter fun s => s.tierOf ∈ tier :: rest)
  rw [List.filter_filter, List.filter_filter] at hparts
  refine List.Perm.trans (List.Perm.of_eq ?_) hparts
  congr 1
  · apply List.filter_congr
    intro s _
    by_cases hs : s.tierOf = tier
    · simp [hs]
    · simp [hs]
  · apply List.filter_congr
    intro s _
    by_cases hs : s.tierOf = tier
    · simp [hs, hnew]
    · simp [hs]

/-- The tiers query sources of theirs, each once. -/
theorem Traced.escalate (services : Services) (settings : Settings) (heap : Heap) {query : String}
    {real : List ObjectSource} {tiers : List ℤ} (htiers : tiers.Nodup) {g : Fetched}
    (h : Traced query g) :
    Traced query (escalateObjects services settings heap query real tiers g) ∧
      ∃ more, (escalateObjects services settings heap query real tiers g).asked =
        g.asked ++ more ∧ more.Subperm (real.filter fun s => s.tierOf ∈ tiers) := by
  induction tiers generalizing g with
  | nil => exact ⟨h, [], (List.append_nil _).symm, List.nil_subperm⟩
  | cons tier rest ih =>
      obtain ⟨hnew, hrest⟩ := List.nodup_cons.1 htiers
      obtain ⟨hrun, hasked⟩ := h.run (real.filter fun s => s.tierOf = tier)
      have hsplit := perm_filter_tiers real hnew
      rw [escalateObjects]
      split_ifs with henough
      · exact ⟨hrun, _, hasked, ((List.sublist_append_left _ _).subperm).trans hsplit.subperm⟩
      · obtain ⟨hlater, more, hmore, hsub⟩ := ih hrest hrun
        refine ⟨hlater, _, by rw [hmore, hasked, List.append_assoc], ?_⟩
        exact ((List.Subperm.refl _).append hsub).trans hsplit.subperm

variable (services : Services) (settings : Settings) (heap : Heap) {query : String}

/-- A run fetches from sources of the list, each once. -/
theorem traced_fetchObjects (query : String) (sources : List ObjectSource) :
    Traced query (fetchObjects services settings heap query sources) ∧
      (fetchObjects services settings heap query sources).asked.Subperm sources := by
  have htiers : (tiersObjects settings sources).Nodup := nodup_tiersObjects sources
  obtain ⟨htiered, more, hmore, hreal⟩ := (Traced.empty query).escalate services settings heap
    htiers
  have hmore : (escalateObjects services settings heap query (realObjects settings sources)
      (tiersObjects settings sources) Fetched.empty).asked.Subperm
        (realObjects settings sources) := by
    rw [hmore]
    exact hreal.trans List.filter_sublist.subperm
  have husable : (usableObjects settings sources).Subperm sources :=
    (List.filter_sublist.trans List.filter_sublist).subperm
  rw [fetchObjects]
  split_ifs with hempty
  · obtain ⟨hrun, hasked⟩ := htiered.run
      ((usableObjects settings sources).filter ObjectSource.isFallback)
    refine ⟨hrun, ?_⟩
    rw [hasked]
    have hparts := List.filter_append_perm (fun s : ObjectSource => !s.isFallback)
      (usableObjects settings sources)
    simp only [Bool.not_not] at hparts
    exact ((hmore.append (List.Subperm.refl _)).trans hparts.subperm).trans husable
  · exact ⟨htiered, (hmore.trans List.filter_sublist.subperm).trans husable⟩

theorem nodup_fetchObjects {sources : List ObjectSource}
    (h : (sources.flatMap (objectsOf query)).Nodup) :
    (fetchObjects services settings heap query sources).products.Nodup := by
  obtain ⟨htraced, l, hperm, hsublist⟩ := traced_fetchObjects services settings heap query sources
  rw [htraced.products, ← (hperm.flatMap_right _).nodup_iff]
  exact h.sublist (hsublist.flatMap _)

/-- An object has the stamp of the call that returned it. -/
theorem stampOf_fetchObjects {sources : List ObjectSource}
    (h : (sources.flatMap (objectsOf query)).Nodup) (now : String) {src : ObjectSource}
    (hsrc : src ∈ (fetchObjects services settings heap query sources).asked)
    {objects : List ℕ} {answeredAt : String} (hfound : src.search query = .found objects answeredAt)
    {r : ℕ} (hr : r ∈ objects) :
    stampOf now (fetchObjects services settings heap query sources).fetched r =
      utcIso answeredAt := by
  obtain ⟨htraced, -⟩ := traced_fetchObjects services settings heap query sources
  have hnodup := nodup_fetchObjects services settings heap h
  set g := fetchObjects services settings heap query sources
  have hpairs : ((g.asked.flatMap (stampsOf query)).map Prod.fst).Nodup := by
    rw [List.map_flatMap]
    simp only [map_fst_stampsOf]
    rwa [← htraced.products]
  have hmem : (r, utcIso answeredAt) ∈ g.asked.flatMap (stampsOf query) := by
    refine List.mem_flatMap.2 ⟨src, hsrc, ?_⟩
    simp only [stampsOf, hfound]
    exact List.mem_map_of_mem hr
  have hstamp : utcIso answeredAt ≠ "" := by
    intro hnone
    have hlength := congrArg String.length hnone
    simp [utcIso] at hlength
  rw [stampOf, htraced.fetched, Dict.get?_ofPairs_of_mem hpairs hmem]
  simp [Option.filter, hstamp]

end Fetching

/-! ## What the passes keep -/

section Passes

variable {services : Services} {settings : Settings} {heap : Heap} {query : String}

/-- The exact-key pass keeps the cheapest object of each key. -/
theorem bestObjects_eq (products : List ℕ) :
    bestObjects services heap products =
      (groupsBy (fun r => dedupKey services (heap r)) products).map
        (cheapest fun r => (heap r).price) := by
  have hstep : keepBestObject services heap =
      gather (fun r => dedupKey services (heap r)) id (cheaper fun r => (heap r).price) := by
    funext best r
    apply eq_gather_cheaper
    · intro hget
      simp [keepBestObject, hget]
    · intro kept hget hless
      simp [keepBestObject, hget, hless]
    · intro kept hget hmore
      simp [keepBestObject, hget, hmore]
  rw [bestObjects, hstep, values_gather]
  rfl

/-- Two fetched objects have one key, or look like one product. -/
def Akin (services : Services) (heap : Heap) (products : List ℕ) (r s : ℕ) : Prop :=
  r ∈ products ∧ s ∈ products ∧ (dedupKey services (heap r) = dedupKey services (heap s) ∨
    sameProduct services (heap r).title (heap s).title = true)

theorem bestObjects_subset {products : List ℕ} {r : ℕ}
    (h : r ∈ bestObjects services heap products) : r ∈ products := by
  rw [bestObjects_eq] at h
  obtain ⟨group, hgroup, rfl⟩ := List.mem_map.1 h
  exact (mem_of_mem_group hgroup (cheapest_mem group)).1

/-- What is fetched has a survivor of both passes that costs no more, at the end of a chain. -/
theorem exists_kept {products : List ℕ} {r : ℕ} (hr : r ∈ products) :
    ∃ s ∈ survivors services (fun r => (heap r).title) (fun r => (heap r).price)
        (bestObjects services heap products),
      (heap s).price ≤ (heap r).price ∧ Relation.EqvGen (Akin services heap products) s r := by
  obtain ⟨group, hgroup, hkey⟩ := exists_group (fun r => dedupKey services (heap r)) hr
  set b := cheapest (fun r => (heap r).price) group with hb
  have hbest : b ∈ bestObjects services heap products := by
    rw [bestObjects_eq]
    exact List.mem_map_of_mem hgroup
  have hbkey : dedupKey services (heap b) = dedupKey services (heap r) :=
    (key_cheapest (fun r => (heap r).price) hgroup).trans hkey
  have hbprice : (heap b).price ≤ (heap r).price := by
    have hmember : r ∈ group.1 :: group.2 := by
      rw [members_eq hgroup]
      exact List.mem_filter.2 ⟨hr, decide_eq_true hkey.symm⟩
    exact cost_cheapest_le (fun r => (heap r).price) hmember
  obtain ⟨i, hi, hbi⟩ := List.getElem_of_mem hbest
  have hplace : (bestObjects services heap products)[i]? = some b :=
    List.getElem?_eq_some_iff.2 ⟨hi, hbi⟩
  obtain ⟨c, hc, hroot, hfirst⟩ := exists_chosen_root services (fun r => (heap r).title)
    (fun r => (heap r).price) hi
  obtain ⟨s, hs, hcs⟩ := exists_survivor hc
  refine ⟨s, hs, ?_, ?_⟩
  · have hsprice : (heap s).price ≤ (heap b).price := by
      rcases hfirst i s b hroot.symm hcs hplace with hlt | ⟨heq, -⟩
      · exact hlt.le
      · exact heq.le
    exact hsprice.trans hbprice
  · have hchain : Relation.EqvGen (Akin services heap products) s b := by
      refine eqvGen_of_connected ?_ (connected_of_rootAt_eq hroot) hcs hplace
      intro p hp q hq hsame
      exact ⟨bestObjects_subset hp, bestObjects_subset hq, Or.inr hsame⟩
    exact hchain.trans _ _ _ (.rel _ _ ⟨bestObjects_subset hbest, hr, Or.inl hbkey⟩)

/-- No two survivors share a key. -/
theorem nodup_survivor_keys (products : List ℕ) :
    ((survivors services (fun r => (heap r).title) (fun r => (heap r).price)
      (bestObjects services heap products)).map fun r => dedupKey services (heap r)).Nodup := by
  obtain ⟨l, hperm, hsublist⟩ := survivors_subperm services (fun r => (heap r).title)
    (fun r => (heap r).price) (bestObjects services heap products)
  rw [← (hperm.map _).nodup_iff]
  refine List.Nodup.sublist (hsublist.map _) ?_
  rw [bestObjects_eq]
  exact nodup_cheapest_keys (fun r => dedupKey services (heap r)) _ products

end Passes

/-! ## A run -/

section Runs

/-- What each run of `aggregate` meets. -/
structure Faultless (services : Services) (settings : Settings) (heap : Heap) (query : String)
    (run : ObjectRun) : Prop where
  /-- The ranked objects are the cheapest survivors, cheapest first. -/
  ranked : ∃ sorted : List ℕ, sorted.Perm run.items ∧
    sorted.Pairwise (fun r s => (heap r).price ≤ (heap s).price) ∧
    run.ranked = sorted.take settings.limit
  sorted : run.result.results.Pairwise fun first second => first.price ≤ second.price
  length : run.result.results.length ≤ settings.limit
  keys : (run.result.results.map fun offer => dedupKey services offer.toProduct).Nodup
  /-- What a source queried returned in time has a survivor that costs no more. -/
  kept : ∀ src ∈ run.gathered.asked, ∀ r ∈ objectsOf query src, ∃ s ∈ run.items,
    (heap s).price ≤ (heap r).price ∧
      Relation.EqvGen (Akin services heap run.gathered.products) s r
  /-- A row has the fields of its object and the time of the call that returned it. -/
  stamped : List.Forall₂ (fun r (offer : Offer) => offer.toProduct = heap r ∧
    (∃ src ∈ run.gathered.asked, r ∈ objectsOf query src) ∧
    ∀ src ∈ run.gathered.asked, ∀ objects answeredAt,
      src.search query = .found objects answeredAt → r ∈ objects →
        offer.fetchedAt = utcIso answeredAt) run.ranked run.result.results
  median : run.result.medianPrice =
    roundTo 2 (medianOrZero (run.items.map fun r => (heap r).price))
  percent : ∀ offer ∈ run.result.results, offer.dealPct =
    if medianOrZero (run.items.map fun r => (heap r).price) = 0 then 0
    else roundTo 1 ((medianOrZero (run.items.map fun r => (heap r).price) - offer.price) /
      medianOrZero (run.items.map fun r => (heap r).price) * 100)

/-- **No better price is lost.** While no object is returned twice, `aggregate` returns, and
its run is as it should be. -/
theorem aggregate_keeps_best (services : Services) (settings : Settings) (heap : Heap)
    (now query : String) (sources : List ObjectSource)
    (hdistinct : (sources.flatMap (objectsOf query)).Nodup) :
    ∃ run, aggregateObjects services settings heap now query sources = some run ∧
      run.gathered = fetchObjects services settings heap query sources ∧
      Faultless services settings heap query run := by
  obtain ⟨htraced, -⟩ := traced_fetchObjects services settings heap query sources
  have hstamps := @stampOf_fetchObjects services settings heap query sources hdistinct now
  rw [aggregateObjects, dedupItems_eq (Nat.lt_succ_self _)]
  set g := fetchObjects services settings heap query sources
  set items := survivors services (fun r => (heap r).title) (fun r => (heap r).price)
    (bestObjects services heap g.products) with hitems
  set sorted := items.insertionSort fun r s => (heap r).price ≤ (heap s).price with hsorted
  have hperm : sorted.Perm items := List.perm_insertionSort _ _
  have hpairwise : sorted.Pairwise fun r s => (heap r).price ≤ (heap s).price :=
    List.pairwise_insertionSort _ _
  have hmem : ∀ r ∈ sorted.take settings.limit, r ∈ g.products := by
    intro r hr
    have hitem := hperm.subset (List.mem_of_mem_take hr)
    exact bestObjects_subset ((survivors_subperm ..).subset hitem)
  refine ⟨_, rfl, rfl, ⟨⟨sorted, hperm, hpairwise, rfl⟩, ?_, ?_, ?_, ?_, ?_, rfl, ?_⟩⟩
  · exact List.pairwise_map.2 (hpairwise.sublist (List.take_sublist _ _))
  · exact (List.length_map _).trans_le (List.length_take_le _ _)
  · have hkeys : (sorted.map fun r => dedupKey services (heap r)).Nodup :=
      (hperm.map _).nodup_iff.2 (nodup_survivor_keys _)
    have hranked := hkeys.sublist ((List.take_sublist settings.limit sorted).map _)
    simpa [Function.comp_def, toOffer] using hranked
  · intro src hsrc r hr
    have hfetched : r ∈ g.products := by
      rw [htraced.products]
      exact List.mem_flatMap.2 ⟨src, hsrc, hr⟩
    exact exists_kept hfetched
  · refine List.forall₂_map_right_iff.2 (List.forall₂_same.2 fun r hr => ⟨rfl, ?_, ?_⟩)
    · have hfetched := hmem r hr
      rwa [htraced.products, List.mem_flatMap] at hfetched
    · intro src hsrc objects answeredAt hfound hobject
      exact hstamps hsrc hfound hobject
  · intro offer hoffer
    obtain ⟨r, -, rfl⟩ := List.mem_map.1 hoffer
    rfl

/-- A tent at two prices, and another product. -/
def tentHeap : Heap := fun r =>
  if r = 0 then ⟨"a", "tent x", some "b", 200, "", "S1", none, none, none⟩
  else if r = 1 then ⟨"c", "other", some "b", 100, "", "S1", none, none, none⟩
  else ⟨"b", "tent x", some "b", 150, "", "S2", none, none, none⟩

/-- The tent comes from two sources, cheaper and later from the second. -/
def tentSources : List ObjectSource :=
  [⟨"S1", true, some 1, none, fun _ => .found [0, 1] "2026-10-26T12:00:00"⟩,
    ⟨"S2", true, some 1, none, fun _ => .found [2] "2026-10-26T12:00:01"⟩]

theorem aggregate_keeps_best_tent : ∃ run,
    aggregateObjects plainServices usual tentHeap "2026-10-26T12:00:02" "tent" tentSources =
      some run ∧ Faultless plainServices usual tentHeap "tent" run ∧ run.ranked = [1, 2] := by
  obtain ⟨run, hrun, -, hfaultless⟩ := aggregate_keeps_best plainServices usual tentHeap
    "2026-10-26T12:00:02" "tent" tentSources (by decide)
  have hranked : (aggregateObjects plainServices usual tentHeap "2026-10-26T12:00:02" "tent"
      tentSources).map ObjectRun.ranked = some [1, 2] := by decide +kernel
  rw [hrun] at hranked
  exact ⟨run, hrun, hfaultless, Option.some.inj hranked⟩

end Runs

/-! ## The run on values -/

section Values

/-- A source that returns what its objects are. -/
def ObjectSource.toSource (heap : Heap) (src : ObjectSource) : Source where
  name := src.name
  available := src.available
  tier := src.tier
  fallbackOnly := src.fallbackOnly
  search := fun query =>
    match src.search query with
    | .found objects answeredAt => .found (objects.map heap) (utcIso answeredAt)
    | .failed => .failed
    | .late => .late

/-- What is fetched, as rows with their stamps. -/
def Fetched.rows (heap : Heap) (query : String) (g : Fetched) : Gathered where
  products := g.asked.flatMap fun src => rowsOf query (src.toSource heap)
  live := g.live
  throttled := g.throttled
  timedOut := g.timedOut

variable {services : Services} {settings : Settings} {heap : Heap} {query : String}

theorem rows_collect (g : Fetched) (src : ObjectSource) :
    (collectObjects query g src).rows heap query =
      collect query (g.rows heap query) (src.toSource heap) := by
  unfold collectObjects collect Fetched.rows rowsOf
  cases hsearch : src.search query with
  | late => simp [ObjectSource.toSource, hsearch]
  | failed => simp [ObjectSource.toSource, hsearch]
  | found objects answeredAt =>
      by_cases hempty : objects = []
      · simp [ObjectSource.toSource, hsearch, hempty]
      · simp [ObjectSource.toSource, hsearch, hempty]

theorem rows_run (g : Fetched) (batch : List ObjectSource) :
    (runObjects query g batch).rows heap query =
      runBatch query (g.rows heap query) (batch.map (ObjectSource.toSource heap)) := by
  induction batch generalizing g with
  | nil => rfl
  | cons src rest ih =>
      have hstep : runObjects query g (src :: rest) =
          runObjects query (collectObjects query g src) rest := rfl
      rw [hstep, ih, rows_collect]
      rfl

/-- The products of the rows are the objects. -/
theorem map_toProduct_rows (heap : Heap) {g : Fetched} (h : Traced query g) :
    (g.rows heap query).products.map Listing.toProduct = g.products.map heap := by
  rw [h.products, Fetched.rows, List.map_flatMap, List.map_flatMap]
  congr 1
  funext src
  unfold rowsOf objectsOf
  cases hsearch : src.search query with
  | late => simp [ObjectSource.toSource, hsearch]
  | failed => simp [ObjectSource.toSource, hsearch]
  | found objects answeredAt =>
      simp [ObjectSource.toSource, hsearch, Function.comp_def]

theorem rows_escalate (services : Services) (settings : Settings) (heap : Heap)
    {real : List ObjectSource} {tiers : List ℤ} {g : Fetched}
    (h : Traced query g) :
    (escalateObjects services settings heap query real tiers g).rows heap query =
      escalate services settings query (real.map (ObjectSource.toSource heap)) tiers
        (g.rows heap query) := by
  induction tiers generalizing g with
  | nil => rfl
  | cons tier rest ih =>
      have hrun := (h.run (real.filter fun s => s.tierOf = tier)).1
      have hbatch : (real.map (ObjectSource.toSource heap)).filter (fun s => tierOf s = tier) =
          (real.filter fun s => s.tierOf = tier).map (ObjectSource.toSource heap) := List.filter_map
      have henough : enough services settings
          (runBatch query (g.rows heap query) ((real.filter fun s => s.tierOf = tier).map
            (ObjectSource.toSource heap))).products =
          enoughObjects services settings heap
            (runObjects query g (real.filter fun s => s.tierOf = tier)).products := by
        have hproducts := congrArg (List.map (dedupKey services)) (map_toProduct_rows heap hrun)
        rw [List.map_map, List.map_map] at hproducts
        rw [← rows_run, enough, enoughObjects]
        exact congrArg (fun keys : List String =>
          decide (settings.target ≤ (keys.toFinset.card : ℤ))) hproducts
      simp only [escalateObjects, escalate, hbatch, henough]
      split_ifs with hstop
      · exact rows_run _ _
      · rw [ih hrun, rows_run]

theorem benched_toSource (sources : List ObjectSource) :
    benchedNames settings (sources.map (ObjectSource.toSource heap)) =
      benchedObjects settings sources := by
  simp only [benchedNames, benchedObjects, List.filter_map, List.map_map]
  rfl

theorem usable_toSource (sources : List ObjectSource) :
    usable settings (sources.map (ObjectSource.toSource heap)) =
      (usableObjects settings sources).map (ObjectSource.toSource heap) := by
  simp only [usable, usableObjects, benched_toSource, List.filter_map]
  rfl

theorem real_toSource (sources : List ObjectSource) :
    realSources settings (sources.map (ObjectSource.toSource heap)) =
      (realObjects settings sources).map (ObjectSource.toSource heap) := by
  simp only [realSources, realObjects, usable_toSource, List.filter_map]
  rfl

theorem tiers_toSource (sources : List ObjectSource) :
    tiersOf settings (sources.map (ObjectSource.toSource heap)) =
      tiersObjects settings sources := by
  simp only [tiersOf, tiersObjects, real_toSource, List.map_map]
  rfl

theorem rows_fetch (services : Services) (settings : Settings) (heap : Heap) (query : String)
    (sources : List ObjectSource) :
    (fetchObjects services settings heap query sources).rows heap query =
      fetch services settings query (sources.map (ObjectSource.toSource heap)) := by
  have hescalate := @rows_escalate query services settings heap (realObjects settings sources)
    (tiersObjects settings sources) _ (Traced.empty query)
  have htraced := @Traced.escalate services settings heap query (realObjects settings sources)
    (tiersObjects settings sources) (nodup_tiersObjects sources) _ (Traced.empty query)
  have hfallback : (usable settings (sources.map (ObjectSource.toSource heap))).filter isFallback =
      ((usableObjects settings sources).filter ObjectSource.isFallback).map
        (ObjectSource.toSource heap) := by
    rw [usable_toSource, List.filter_map]
    rfl
  have hnone : (escalateObjects services settings heap query (realObjects settings sources)
      (tiersObjects settings sources) Fetched.empty).products = [] ↔
        (Fetched.rows heap query (escalateObjects services settings heap query
          (realObjects settings sources) (tiersObjects settings sources)
            Fetched.empty)).products = [] := by
    have hproducts := congrArg List.isEmpty (map_toProduct_rows heap htraced.1)
    rw [List.isEmpty_map, List.isEmpty_map] at hproducts
    rw [← List.isEmpty_iff, ← List.isEmpty_iff, hproducts]
  unfold fetchObjects fetch
  rw [real_toSource, tiers_toSource, hfallback]
  have hempty : Gathered.empty = Fetched.empty.rows heap query := rfl
  rw [hempty, ← hescalate]
  dsimp only
  split_ifs with hobjects hrows hrows
  · exact rows_run _ _
  · exact absurd (hnone.1 hobjects) hrows
  · exact absurd (hnone.2 hrows) hobjects
  · rfl

/-- The row of an object. -/
def rowOf (heap : Heap) (now : String) (fetched : Dict ℕ String) (r : ℕ) : Listing :=
  ⟨heap r, stampOf now fetched r⟩

/-- The rows fetched are those of the objects fetched. -/
theorem fetch_products (services : Services) (settings : Settings) (heap : Heap)
    {sources : List ObjectSource}
    (h : (sources.flatMap (objectsOf query)).Nodup) (now : String) :
    (fetch services settings query (sources.map (ObjectSource.toSource heap))).products =
      (fetchObjects services settings heap query sources).products.map
        (rowOf heap now (fetchObjects services settings heap query sources).fetched) := by
  have hstamps := @stampOf_fetchObjects services settings heap query sources h now
  obtain ⟨htraced, -⟩ := traced_fetchObjects services settings heap query sources
  rw [← rows_fetch, htraced.products, List.map_flatMap]
  set g := fetchObjects services settings heap query sources
  apply List.flatMap_congr
  intro src hsrc
  unfold rowsOf objectsOf
  cases hsearch : src.search query with
  | late => simp [ObjectSource.toSource, hsearch]
  | failed => simp [ObjectSource.toSource, hsearch]
  | found objects answeredAt =>
      simp only [ObjectSource.toSource, hsearch, List.map_map]
      apply List.map_congr_left
      intro r hr
      rw [rowOf, hstamps hsrc hsearch hr]
      rfl

theorem bestByKey_rows (f : ℕ → Listing) (hf : ∀ r, (f r).toProduct = heap r) (products : List ℕ) :
    bestByKey services (products.map f) = (bestObjects services heap products).map f := by
  have hprice : ∀ r, (f r).price = (heap r).price := fun r => congrArg Product.price (hf r)
  rw [bestByKey_eq, bestObjects_eq, groupsBy_map, List.map_map, List.map_map]
  simp only [hf]
  apply List.map_congr_left
  intro group _
  have hcheapest := cheapest_map (fun p : Listing => p.price) f group
  simp only [hprice] at hcheapest
  exact hcheapest

theorem dedup_rows (f : ℕ → Listing) (hf : ∀ r, (f r).toProduct = heap r) (best : List ℕ) :
    (dedupByEmbedding services (best.map f)).1 =
      (survivors services (fun r => (heap r).title) (fun r => (heap r).price) best).map f := by
  have hrun := dedupItems_listings services (Nat.lt_succ_self (places (best.map f).length).length)
  rw [dedupItems_eq (Nat.lt_succ_self _), survivors_map] at hrun
  simp only [hf] at hrun
  exact (congrArg Prod.fst (Option.some.inj hrun)).symm

theorem byPrice_rows (f : ℕ → Listing) (hf : ∀ r, (f r).toProduct = heap r) (items : List ℕ) :
    byPrice (items.map f) =
      (items.insertionSort fun r s => (heap r).price ≤ (heap s).price).map f := by
  rw [byPrice]
  refine (List.map_insertionSort _ _ f items fun r _ s _ => ?_).symm
  rw [hf, hf]

/-- **The run on objects gives the rows of the run on values.** -/
theorem aggregateObjects_eq {sources : List ObjectSource}
    (h : (sources.flatMap (objectsOf query)).Nodup) (now : String) :
    (aggregateObjects services settings heap now query sources).map ObjectRun.result =
      some (aggregate services settings query
        (sources.map (ObjectSource.toSource heap))).1 := by
  have hrows := fetch_products services settings heap h now
  have hfetch := rows_fetch services settings heap query sources
  set g := fetchObjects services settings heap query sources with hg
  set f := rowOf heap now g.fetched with hf
  have hproduct : ∀ r, (f r).toProduct = heap r := fun _ => rfl
  have hprice : ∀ items : List ℕ, (items.map f).map (fun p : Listing => p.price) =
      items.map fun r => (heap r).price := fun items => List.map_map
  rw [aggregateObjects, dedupItems_eq (Nat.lt_succ_self _), aggregate, hrows,
    bestByKey_rows f hproduct, ← hfetch]
  simp only [dedup_rows f hproduct, byPrice_rows f hproduct, hprice, ← List.map_take,
    benched_toSource, List.map_map, List.length_map, Option.map_some]
  rfl

end Values

end DealFinder.Shop
