/-
# The sources of a call

`called` lists the sources that a call of `aggregate` queries, in order, and
`fetch` is the one pass over them (`fetch_eq`). What a call reports of a configured
source is read off its answer, and each has exactly one fate (`existsUnique_fate`).
-/

import DealFinder.Shop.Aggregate

namespace DealFinder.Shop

open DealFinder.Math

/-! ## What one source contributes -/

/-- The rows of an answer. -/
def rowsOf (query : String) (src : Source) : List Listing :=
  match src.search query with
  | .found products answeredAt => products.map fun p => ⟨p, answeredAt⟩
  | _ => []

/-- The source misses the deadline. -/
def isLate (query : String) (src : Source) : Bool :=
  match src.search query with
  | .late => true
  | _ => false

/-- The source raises or misses the deadline. -/
def fails (query : String) (src : Source) : Bool :=
  match src.search query with
  | .found .. => false
  | _ => true

/-- The source answers with rows. -/
def answers (query : String) (src : Source) : Bool := !(rowsOf query src).isEmpty

section Batches

variable {query : String}

theorem collect_eq (gathered : Gathered) (src : Source) :
    collect query gathered src =
      ⟨gathered.products ++ rowsOf query src,
        gathered.live ++ ([src].filter (answers query)).map Source.name,
        gathered.throttled ++ ([src].filter (fails query)).map Source.name,
        gathered.timedOut ++ ([src].filter (isLate query)).map Source.name⟩ := by
  unfold collect rowsOf
  cases hsearch : src.search query with
  | late => simp [answers, fails, isLate, rowsOf, hsearch]
  | failed => simp [answers, fails, isLate, rowsOf, hsearch]
  | found products answeredAt =>
      by_cases hempty : products = []
      · simp [answers, fails, isLate, rowsOf, hsearch, hempty]
      · simp [answers, fails, isLate, rowsOf, hsearch, hempty]

/-- A batch adds what each of its sources contributes. -/
theorem runBatch_eq (gathered : Gathered) (batch : List Source) :
    runBatch query gathered batch =
      ⟨gathered.products ++ batch.flatMap (rowsOf query),
        gathered.live ++ (batch.filter (answers query)).map Source.name,
        gathered.throttled ++ (batch.filter (fails query)).map Source.name,
        gathered.timedOut ++ (batch.filter (isLate query)).map Source.name⟩ := by
  induction batch generalizing gathered with
  | nil => simp [runBatch]
  | cons src rest ih =>
      have hstep : runBatch query gathered (src :: rest) =
          runBatch query (collect query gathered src) rest := rfl
      have hfilter : ∀ p : Source → Bool,
          (src :: rest).filter p = [src].filter p ++ rest.filter p :=
        fun p => List.filter_cons.trans (by by_cases hp : p src = true <;> simp [hp])
      rw [hstep, ih, collect_eq]
      simp only [hfilter, List.map_append, List.flatMap_cons, List.append_assoc]

theorem runBatch_append (gathered : Gathered) (first second : List Source) :
    runBatch query gathered (first ++ second) =
      runBatch query (runBatch query gathered first) second := List.foldl_append ..

end Batches

/-! ## The sources called -/

section Called

variable (services : Services) (settings : Settings) (query : String)

/-- The sources of one tier. -/
def batchOf (real : List Source) (tier : ℤ) : List Source :=
  real.filter fun s => tierOf s = tier

/-- The sources that the loop over the tiers calls. -/
def tiersCalled (real : List Source) : List ℤ → Gathered → List Source
  | [], _ => []
  | tier :: rest, gathered =>
      batchOf real tier ++
        if enough services settings (runBatch query gathered (batchOf real tier)).products then []
        else tiersCalled real rest (runBatch query gathered (batchOf real tier))

/-- What the tiers yield. -/
def tierRows (sources : List Source) : Gathered :=
  escalate services settings query (realSources settings sources) (tiersOf settings sources)
    Gathered.empty

/-- The sources a call of `aggregate` calls, in order. -/
def called (sources : List Source) : List Source :=
  tiersCalled services settings query (realSources settings sources) (tiersOf settings sources)
      Gathered.empty ++
    if (tierRows services settings query sources).products = [] then
      (usable settings sources).filter isFallback
    else []

end Called

section Called

variable {services : Services} {settings : Settings} {query : String}

theorem escalate_eq (real : List Source) (tiers : List ℤ) (gathered : Gathered) :
    escalate services settings query real tiers gathered =
      runBatch query gathered (tiersCalled services settings query real tiers gathered) := by
  induction tiers generalizing gathered with
  | nil => rfl
  | cons tier rest ih =>
      simp only [escalate, tiersCalled, runBatch_append]
      change (if enough services settings (runBatch query gathered (batchOf real tier)).products
        then _ else _) = _
      split_ifs with hstop
      · rfl
      · exact ih _

/-- A call fetches from the sources it calls, each once and in order. -/
theorem fetch_eq (sources : List Source) :
    fetch services settings query sources =
      runBatch query Gathered.empty (called services settings query sources) := by
  unfold fetch called
  rw [runBatch_append, ← escalate_eq]
  by_cases hempty : (tierRows services settings query sources).products = []
  · rw [if_pos hempty]
    exact if_pos hempty
  · rw [if_neg hempty]
    exact if_neg hempty

/-- The loop reaches a tier unless the target is met after an earlier one. -/
theorem mem_tiersCalled_iff {real : List Source} {tiers : List ℤ} (htiers : tiers.Nodup)
    {gathered : Gathered} {s : Source} :
    s ∈ tiersCalled services settings query real tiers gathered ↔
      s ∈ real ∧ ∃ before after, tiers = before ++ tierOf s :: after ∧
        ∀ first tier rest, before = first ++ tier :: rest →
          enough services settings (runBatch query gathered
            ((first ++ [tier]).flatMap (batchOf real))).products = false := by
  induction tiers generalizing gathered with
  | nil => simp [tiersCalled]
  | cons tier rest ih =>
      obtain ⟨hnew, hrest⟩ := List.nodup_cons.1 htiers
      have hbatch : s ∈ batchOf real tier ↔ s ∈ real ∧ tierOf s = tier := by
        simp [batchOf]
      rw [tiersCalled, List.mem_append, hbatch]
      constructor
      · rintro (⟨hreal, rfl⟩ | hlater)
        · refine ⟨hreal, [], rest, rfl, ?_⟩
          intro first tier rest hsplit
          simp at hsplit
        · split_ifs at hlater with hstop
          · cases hlater
          · obtain ⟨hreal, before, after, rfl, hlow⟩ := (ih hrest).1 hlater
            refine ⟨hreal, tier :: before, after, rfl, ?_⟩
            intro first next tail hsplit
            cases first with
            | nil =>
                obtain ⟨rfl, -⟩ := List.cons.inj hsplit
                simpa using hstop
            | cons x first =>
                obtain ⟨rfl, hbefore⟩ := List.cons.inj hsplit
                have hnext := hlow first next tail hbefore
                rwa [← runBatch_append] at hnext
      · rintro ⟨hreal, before, after, hsplit, hlow⟩
        cases before with
        | nil => exact Or.inl ⟨hreal, (List.cons.inj hsplit).1.symm⟩
        | cons x before =>
            obtain ⟨rfl, htail⟩ := List.cons.inj hsplit
            apply Or.inr
            have hfirst := hlow [] tier before rfl
            rw [List.nil_append, List.flatMap_singleton] at hfirst
            rw [if_neg (by simp [hfirst])]
            refine (ih hrest).2 ⟨hreal, before, after, htail, ?_⟩
            intro first next tail hbefore
            have hnext := hlow (tier :: first) next tail (by rw [hbefore]; rfl)
            rw [← runBatch_append]
            exact hnext

end Called

/-! ## What a call reports of a source -/

section Accounts

variable (services : Services) (settings : Settings) (query : String) (sources : List Source)

/-- The target is met after a tier before the source's own. -/
def MetBefore (s : Source) : Prop :=
  ∃ before tier after, tiersOf settings sources = before ++ tier :: after ∧ tier < tierOf s ∧
    enough services settings (runBatch query Gathered.empty
      ((before ++ [tier]).flatMap (batchOf (realSources settings sources)))).products = true

/-- A call gets as far as the source: to its tier, or to the fallbacks. -/
def Reaches (s : Source) : Prop :=
  if isFallback s then (tierRows services settings query sources).products = []
  else ¬ MetBefore services settings query sources s

/-- The names of the sources called. -/
def namesCalled : List String := (called services settings query sources).map Source.name

/-- What can become of a configured source in a call. -/
inductive Fate
  /-- Cooling down, and not called. -/
  | benched
  /-- Called once, and failed. -/
  | throttled
  /-- Called once, and answered with rows. -/
  | live
  /-- Called once, and answered without rows. -/
  | empty
  /-- Not reached: an earlier tier met the target, or for a fallback there were rows. -/
  | unreached
  deriving DecidableEq

/-- What each fate of a source means, in the answer and in the calls made. -/
def HasFate (s : Source) : Fate → Prop
  | .benched =>
      s.name ∈ (aggregate services settings query sources).1.benched ∧
        s.name ∉ namesCalled services settings query sources
  | .throttled =>
      s.name ∈ (aggregate services settings query sources).1.throttled ∧
        (namesCalled services settings query sources).count s.name = 1 ∧ fails query s = true
  | .live =>
      s.name ∈ (aggregate services settings query sources).1.sourcesLive ∧
        (namesCalled services settings query sources).count s.name = 1 ∧ rowsOf query s ≠ []
  | .empty =>
      (namesCalled services settings query sources).count s.name = 1 ∧ fails query s = false ∧
        rowsOf query s = []
  | .unreached =>
      s.name ∉ (aggregate services settings query sources).1.benched ∧
        s.name ∉ namesCalled services settings query sources ∧
        if isFallback s then (tierRows services settings query sources).products ≠ []
        else MetBefore services settings query sources s

/-- The fate of a source. -/
def fateOf (s : Source) : Fate :=
  if s.name ∈ benchedNames settings sources then .benched
  else if s.name ∉ namesCalled services settings query sources then .unreached
  else if fails query s then .throttled
  else if rowsOf query s = [] then .empty
  else .live

end Accounts

section Accounts

variable {services : Services} {settings : Settings} {query : String} {sources : List Source}

theorem sorted_tiersOf (settings : Settings) (sources : List Source) :
    (tiersOf settings sources).Pairwise (· < ·) := by
  have hle : (tiersOf settings sources).Pairwise (· ≤ ·) := List.pairwise_insertionSort _ _
  have hnodup : (tiersOf settings sources).Nodup :=
    (List.perm_insertionSort _ _).nodup_iff.2 (List.nodup_dedup _)
  exact (hle.and hnodup).imp fun h => lt_of_le_of_ne h.1 h.2

theorem mem_tiersOf {s : Source} (h : s ∈ realSources settings sources) :
    tierOf s ∈ tiersOf settings sources := by
  rw [tiersOf, List.mem_insertionSort, List.mem_dedup]
  exact List.mem_map_of_mem h

theorem mem_realSources {s : Source} :
    s ∈ realSources settings sources ↔ s ∈ usable settings sources ∧ isFallback s = false := by
  simp [realSources]

theorem mem_usable {s : Source} :
    s ∈ usable settings sources ↔
      s ∈ sources ∧ s.available = true ∧ s.name ∉ benchedNames settings sources := by
  simp only [usable, List.mem_filter, decide_eq_true_eq, and_assoc]

/-- The tiers before a source's own are those that come before it in the loop. -/
theorem not_metBefore_iff {s : Source} (hs : s ∈ realSources settings sources) :
    ¬ MetBefore services settings query sources s ↔
      ∃ before after, tiersOf settings sources = before ++ tierOf s :: after ∧
        ∀ first tier rest, before = first ++ tier :: rest →
          enough services settings (runBatch query Gathered.empty
            ((first ++ [tier]).flatMap (batchOf (realSources settings sources)))).products =
              false := by
  have hsorted := sorted_tiersOf settings sources
  constructor
  · intro hlow
    obtain ⟨before, after, hsplit⟩ := List.append_of_mem (mem_tiersOf hs)
    refine ⟨before, after, hsplit, ?_⟩
    rintro first tier rest rfl
    rw [Bool.eq_false_iff]
    intro hmet
    refine hlow ⟨first, tier, rest ++ tierOf s :: after, by simp [hsplit], ?_, hmet⟩
    rw [hsplit] at hsorted
    exact (List.pairwise_append.1 hsorted).2.2 tier (by simp) (tierOf s) (by simp)
  · rintro ⟨before, after, hsplit, hlow⟩ ⟨first, tier, rest, hsplit', hlt, hmet⟩
    rw [hsplit'] at hsplit
    rcases List.append_eq_append_iff.1 hsplit with ⟨mid, rfl, hmid⟩ | ⟨mid, rfl, hmid⟩
    · cases mid with
      | nil => exact hlt.ne (List.cons.inj hmid).1
      | cons x mid =>
          obtain ⟨rfl, -⟩ := List.cons.inj hmid
          rw [hlow first tier mid rfl] at hmet
          cases hmet
    · cases mid with
      | nil => exact hlt.ne (List.cons.inj hmid).1.symm
      | cons x mid =>
          -- The tier would stand after the source's own.
          obtain ⟨rfl, -⟩ := List.cons.inj hmid
          rw [hsplit'] at hsorted
          exact lt_asymm hlt
            ((List.pairwise_append.1 hsorted).2.2 (tierOf s) (by simp) tier (by simp))

/-- A call calls the sources that are not benched and that it reaches. -/
theorem mem_called_iff {s : Source} :
    s ∈ called services settings query sources ↔
      s ∈ usable settings sources ∧ Reaches services settings query sources s := by
  unfold called
  rw [List.mem_append,
    mem_tiersCalled_iff ((sorted_tiersOf settings sources).imp fun h => h.ne), mem_realSources]
  cases hfallback : isFallback s with
  | true =>
      simp only [Reaches, hfallback, if_true, Bool.true_eq_false, and_false, false_and, false_or]
      split_ifs with hempty
      · simp [hfallback, hempty]
      · simp [hempty]
  | false =>
      have hnone : s ∉ (if (tierRows services settings query sources).products = [] then
          (usable settings sources).filter isFallback else []) := by
        split_ifs <;> simp [hfallback]
      simp only [Reaches, hfallback, Bool.false_eq_true, if_false, and_true, hnone, or_false]
      constructor
      · rintro ⟨husable, hreached⟩
        exact ⟨husable, (not_metBefore_iff (mem_realSources.2 ⟨husable, hfallback⟩)).2 hreached⟩
      · rintro ⟨husable, hlow⟩
        exact ⟨husable, (not_metBefore_iff (mem_realSources.2 ⟨husable, hfallback⟩)).1 hlow⟩

/-- Different tiers have different sources. -/
theorem nodup_tiersCalled {real : List Source} (hreal : (real.map Source.name).Nodup)
    {tiers : List ℤ} (htiers : tiers.Nodup) (gathered : Gathered) :
    ((tiersCalled services settings query real tiers gathered).map Source.name).Nodup := by
  induction tiers generalizing gathered with
  | nil => exact List.nodup_nil
  | cons tier rest ih =>
      obtain ⟨hnew, hrest⟩ := List.nodup_cons.1 htiers
      rw [tiersCalled, List.map_append]
      refine List.nodup_append'.2 ⟨?_, ?_, ?_⟩
      · exact hreal.sublist (List.filter_sublist.map Source.name)
      · split_ifs
        · exact List.nodup_nil
        · exact ih hrest _
      · intro name hfirst hsecond
        obtain ⟨s, hs, rfl⟩ := List.mem_map.1 hfirst
        obtain ⟨s', hs', hname⟩ := List.mem_map.1 hsecond
        split_ifs at hs'
        · cases hs'
        · obtain ⟨hreal', before, after, hsplit, -⟩ := (mem_tiersCalled_iff hrest).1 hs'
          obtain ⟨hs, htier⟩ := List.mem_filter.1 hs
          obtain rfl := List.inj_on_of_nodup_map hreal hs hreal' hname.symm
          apply hnew
          rw [hsplit, ← of_decide_eq_true htier]
          simp

/-- No source is called twice. -/
theorem nodup_namesCalled (hnames : (sources.map Source.name).Nodup) :
    (namesCalled services settings query sources).Nodup := by
  have husable : ((usable settings sources).map Source.name).Nodup :=
    hnames.sublist ((List.filter_sublist.trans List.filter_sublist).map Source.name)
  have hreal : ((realSources settings sources).map Source.name).Nodup :=
    husable.sublist (List.filter_sublist.map Source.name)
  have htiers : (tiersOf settings sources).Nodup :=
    (sorted_tiersOf settings sources).imp fun h => h.ne
  unfold namesCalled called
  rw [List.map_append]
  refine List.nodup_append'.2 ⟨nodup_tiersCalled hreal htiers _, ?_, ?_⟩
  · split_ifs
    · exact husable.sublist (List.filter_sublist.map Source.name)
    · exact List.nodup_nil
  · intro name hfirst hsecond
    obtain ⟨s, hs, rfl⟩ := List.mem_map.1 hfirst
    obtain ⟨s', hs', hname⟩ := List.mem_map.1 hsecond
    split_ifs at hs'
    · obtain ⟨hs, hreal'⟩ := mem_realSources.1 ((mem_tiersCalled_iff htiers).1 hs).1
      obtain ⟨hs', hfallback⟩ := List.mem_filter.1 hs'
      obtain rfl := List.inj_on_of_nodup_map husable hs hs' hname.symm
      rw [hreal'] at hfallback
      cases hfallback
    · cases hs'

/-- A source is called under its own name alone. -/
theorem name_mem_namesCalled (hnames : (sources.map Source.name).Nodup) {s : Source}
    (hs : s ∈ sources) :
    s.name ∈ namesCalled services settings query sources ↔
      s ∈ called services settings query sources := by
  constructor
  · intro h
    obtain ⟨s', hs', hname⟩ := List.mem_map.1 h
    have hmem := (mem_usable.1 (mem_called_iff.1 hs').1).1
    rwa [← List.inj_on_of_nodup_map hnames hmem hs hname]
  · exact List.mem_map_of_mem

theorem aggregate_throttled :
    (aggregate services settings query sources).1.throttled =
      ((called services settings query sources).filter (fails query)).map Source.name := by
  show (fetch services settings query sources).throttled = _
  rw [fetch_eq, runBatch_eq]
  rfl

theorem aggregate_sourcesLive :
    (aggregate services settings query sources).1.sourcesLive =
      ((called services settings query sources).filter (answers query)).map Source.name := by
  show (fetch services settings query sources).live = _
  rw [fetch_eq, runBatch_eq]
  rfl

theorem aggregate_timedOut :
    (aggregate services settings query sources).1.timedOut =
      ((called services settings query sources).filter (isLate query)).map Source.name := by
  show (fetch services settings query sources).timedOut = _
  rw [fetch_eq, runBatch_eq]
  rfl

/-- A source that misses the deadline is throttled. -/
theorem timedOut_subset_throttled :
    (aggregate services settings query sources).1.timedOut ⊆
      (aggregate services settings query sources).1.throttled := by
  intro name hname
  rw [aggregate_timedOut] at hname
  obtain ⟨s, hs, rfl⟩ := List.mem_map.1 hname
  obtain ⟨hcalled, hlate⟩ := List.mem_filter.1 hs
  rw [aggregate_throttled]
  refine List.mem_map.2 ⟨s, List.mem_filter.2 ⟨hcalled, ?_⟩, rfl⟩
  unfold isLate at hlate
  unfold fails
  cases hsearch : s.search query with
  | late => rfl
  | failed => rfl
  | found products answeredAt =>
      rw [hsearch] at hlate
      cases hlate

/-- Every configured source has its fate. -/
theorem hasFate_fateOf (hnames : (sources.map Source.name).Nodup) {s : Source} (hs : s ∈ sources)
    (havailable : s.available = true) :
    HasFate services settings query sources s (fateOf services settings query sources s) := by
  have hcalled : s.name ∈ namesCalled services settings query sources ↔
      s ∈ called services settings query sources := name_mem_namesCalled hnames hs
  unfold fateOf
  by_cases hbenched : s.name ∈ benchedNames settings sources
  · rw [if_pos hbenched]
    refine ⟨hbenched, fun hname => ?_⟩
    exact (mem_usable.1 (mem_called_iff.1 (hcalled.1 hname)).1).2.2 hbenched
  · rw [if_neg hbenched]
    have husable := mem_usable.2 ⟨hs, havailable, hbenched⟩
    by_cases hname : s.name ∈ namesCalled services settings query sources
    · have hmem := hcalled.1 hname
      have honce := List.count_eq_one_of_mem (nodup_namesCalled hnames) hname
      rw [if_neg (not_not.2 hname)]
      by_cases hfails : fails query s = true
      · rw [if_pos hfails]
        refine ⟨?_, honce, hfails⟩
        rw [aggregate_throttled]
        exact List.mem_map_of_mem (List.mem_filter.2 ⟨hmem, hfails⟩)
      · rw [if_neg hfails]
        by_cases hempty : rowsOf query s = []
        · rw [if_pos hempty]
          exact ⟨honce, by simpa using hfails, hempty⟩
        · rw [if_neg hempty]
          refine ⟨?_, honce, hempty⟩
          rw [aggregate_sourcesLive]
          exact List.mem_map_of_mem (List.mem_filter.2 ⟨hmem, by simp [answers, hempty]⟩)
    · rw [if_pos hname]
      refine ⟨hbenched, hname, ?_⟩
      have hunreached : ¬ Reaches services settings query sources s := fun hreaches =>
        hname (hcalled.2 (mem_called_iff.2 ⟨husable, hreaches⟩))
      unfold Reaches at hunreached
      split_ifs at hunreached ⊢
      · exact hunreached
      · exact not_not.1 hunreached

/-- A source that answers with rows does not fail. -/
theorem fails_of_rows {s : Source} (h : rowsOf query s ≠ []) : fails query s = false := by
  unfold rowsOf at h
  unfold fails
  cases hsearch : s.search query with
  | found products answeredAt => rfl
  | failed => simp [hsearch] at h
  | late => simp [hsearch] at h

/-- No source has two fates. -/
theorem eq_fateOf {s : Source} {fate : Fate}
    (h : HasFate services settings query sources s fate)
    (hcalled : s.name ∈ namesCalled services settings query sources →
      s.name ∉ benchedNames settings sources) :
    fate = fateOf services settings query sources s := by
  have honce : ∀ {name : String}, (namesCalled services settings query sources).count name = 1 →
      name ∈ namesCalled services settings query sources := by
    intro name hcount
    exact List.count_pos_iff.1 (hcount ▸ Nat.one_pos)
  unfold fateOf
  cases fate with
  | benched =>
      have hbenched : s.name ∈ benchedNames settings sources := h.1
      rw [if_pos hbenched]
  | throttled =>
      obtain ⟨-, hcount, hfails⟩ := h
      rw [if_neg (hcalled (honce hcount)), if_neg (not_not.2 (honce hcount)), if_pos hfails]
  | live =>
      obtain ⟨-, hcount, hrows⟩ := h
      rw [if_neg (hcalled (honce hcount)), if_neg (not_not.2 (honce hcount)),
        if_neg (by simp [fails_of_rows hrows]), if_neg hrows]
  | empty =>
      obtain ⟨hcount, hfails, hrows⟩ := h
      rw [if_neg (hcalled (honce hcount)), if_neg (not_not.2 (honce hcount)),
        if_neg (by simp [hfails]), if_pos hrows]
  | unreached =>
      obtain ⟨hbenched, hname, -⟩ := h
      have hfree : s.name ∉ benchedNames settings sources := hbenched
      rw [if_neg hfree, if_pos hname]

/-- **Accounting.** Every configured source has exactly one fate. -/
theorem existsUnique_fate (hnames : (sources.map Source.name).Nodup) {s : Source}
    (hs : s ∈ sources) (havailable : s.available = true) :
    ∃! fate, HasFate services settings query sources s fate := by
  refine ⟨_, hasFate_fateOf hnames hs havailable, fun fate hfate => eq_fateOf hfate ?_⟩
  intro hname
  exact (mem_usable.1 (mem_called_iff.1 ((name_mem_namesCalled hnames hs).1 hname)).1).2.2

end Accounts

end DealFinder.Shop
