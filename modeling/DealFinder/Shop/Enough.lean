/-
# Stopping early

`aggregate` stops asking further tiers when the rows so far have `target` keys.
The rows are collapsed by meaning only afterwards, so the offers shown can be fewer
than the target while tiers were left unasked. They are enough exactly when the
cheapest rows of the keys hold `target` offers that no chain of `same_product`
connects (`short_only_when_all_asked_iff`).
-/

import DealFinder.Shop.Calls
import DealFinder.Shop.Search

namespace DealFinder.Shop

open DealFinder.Math

section Stopping

variable (services : Services) (settings : Settings) (query : String) (sources : List Source)

/-- The rows that some tiers answer with. -/
def rowsOfTiers (tiers : List ℤ) : List Listing :=
  (tiers.flatMap (batchOf (realSources settings sources))).flatMap (rowsOf query)

/-- The loop stops after some tiers: their rows have `target` keys, and those of no
shorter run of tiers have. -/
structure StopsAfter (stopped : List ℤ) : Prop where
  enough_rows : enough services settings (rowsOfTiers settings query sources stopped) = true
  not_before : ∀ first, first <+: stopped → first ≠ stopped →
    enough services settings (rowsOfTiers settings query sources first) = false

/-- The cheapest row of each key, in the order of the keys. -/
def cheapestOfKeys (rows : List Listing) : List Listing :=
  (groupsBy (fun p : Listing => dedupKey services p.toProduct) rows).map
    (cheapest fun p : Listing => p.price)

/-- Among the cheapest rows of the keys, `target` are not connected by chains of
`same_product`. -/
def TargetApart (rows : List Listing) : Prop :=
  ∃ apart : List Listing, (apart.length : ℤ) = settings.target ∧
    apart ⊆ cheapestOfKeys services rows ∧
    apart.Pairwise fun p q => ¬ Relation.EqvGen (Alike services (cheapestOfKeys services rows)) p q

/-- Wherever the loop leaves tiers unasked, the rows it has hold `target` products. -/
def StopsWithEnough : Prop :=
  ∀ stopped left, tiersOf settings sources = stopped ++ left → left ≠ [] →
    StopsAfter services settings query sources stopped →
      TargetApart services settings (rowsOfTiers settings query sources stopped)

end Stopping

/-! ## Where the loop stops -/

section Stopping

variable {services : Services} {settings : Settings} {query : String} {sources : List Source}

/-- The loop ends with the first tiers that meet the target, or asks all. -/
theorem tiersCalled_cases (real : List Source) (tiers : List ℤ) (gathered : Gathered) :
    (∃ stopped left, tiers = stopped ++ left ∧ left ≠ [] ∧ stopped ≠ [] ∧
      tiersCalled services settings query real tiers gathered =
        stopped.flatMap (batchOf real) ∧
      enough services settings
        (runBatch query gathered (stopped.flatMap (batchOf real))).products = true ∧
      ∀ first, first <+: stopped → first ≠ [] → first ≠ stopped →
        enough services settings
          (runBatch query gathered (first.flatMap (batchOf real))).products = false) ∨
    tiersCalled services settings query real tiers gathered = tiers.flatMap (batchOf real) := by
  induction tiers generalizing gathered with
  | nil => exact Or.inr rfl
  | cons tier rest ih =>
      by_cases hstop : enough services settings
          (runBatch query gathered (batchOf real tier)).products = true
      · have hcalled : tiersCalled services settings query real (tier :: rest) gathered =
            batchOf real tier := by
          rw [tiersCalled, if_pos hstop, List.append_nil]
        cases rest with
        | nil => exact Or.inr (by rw [hcalled, List.flatMap_singleton])
        | cons next rest =>
            refine Or.inl ⟨[tier], next :: rest, rfl, List.cons_ne_nil _ _, List.cons_ne_nil _ _,
              ?_, ?_, ?_⟩
            · rw [hcalled, List.flatMap_singleton]
            · rwa [List.flatMap_singleton]
            · intro first hfirst hne hproper
              -- Only the empty run and the tier itself begin the run of one tier.
              rcases List.prefix_cons_iff.1 hfirst with rfl | ⟨tail, rfl, htail⟩
              · exact absurd rfl hne
              · exact absurd (by rw [List.prefix_nil.1 htail]) hproper
      · have hcalled : tiersCalled services settings query real (tier :: rest) gathered =
            batchOf real tier ++ tiersCalled services settings query real rest
              (runBatch query gathered (batchOf real tier)) := by
          rw [tiersCalled, if_neg hstop]
        rcases ih (runBatch query gathered (batchOf real tier)) with
          ⟨stopped, left, rfl, hleft, hsome, hrest, henough, hlow⟩ | hrest
        · refine Or.inl ⟨tier :: stopped, left, rfl, hleft, List.cons_ne_nil _ _, ?_, ?_, ?_⟩
          · rw [hcalled, hrest, List.flatMap_cons]
          · rwa [List.flatMap_cons, runBatch_append]
          · intro first hfirst hne hproper
            rcases List.prefix_cons_iff.1 hfirst with rfl | ⟨tail, rfl, htail⟩
            · exact absurd rfl hne
            · rw [List.flatMap_cons, runBatch_append]
              by_cases hempty : tail = []
              · rw [hempty, List.flatMap_nil]
                exact Bool.eq_false_iff.2 hstop
              · exact hlow tail htail hempty fun heq => hproper (by rw [heq])
        · exact Or.inr (by rw [hcalled, hrest, List.flatMap_cons])

theorem products_runBatch_tiers (tiers : List ℤ) :
    (runBatch query Gathered.empty
      (tiers.flatMap (batchOf (realSources settings sources)))).products =
        rowsOfTiers settings query sources tiers := by
  rw [runBatch_eq]
  rfl

theorem not_enough_nil (htarget : 1 ≤ settings.target) :
    enough services settings [] = false := by
  simp only [enough, List.map_nil, List.toFinset_nil, Finset.card_empty, Nat.cast_zero,
    decide_eq_false_iff_not, not_le]
  omega

/-- The fallbacks are not asked when there are rows. -/
theorem called_of_rows {tiers : List ℤ}
    (htiers : tiersCalled services settings query (realSources settings sources)
      (tiersOf settings sources) Gathered.empty =
        tiers.flatMap (batchOf (realSources settings sources)))
    (hrows : rowsOfTiers settings query sources tiers ≠ []) :
    called services settings query sources =
      tiers.flatMap (batchOf (realSources settings sources)) := by
  have hfetched : (tierRows services settings query sources).products ≠ [] := by
    rw [tierRows, escalate_eq, htiers, products_runBatch_tiers]
    exact hrows
  rw [called, htiers, if_neg hfetched, List.append_nil]

/-- The loop leaves tiers unasked at the place where the target is first met, or asks every
source that is no fallback. -/
theorem called_cases (htarget : 1 ≤ settings.target) :
    (∃ stopped left, tiersOf settings sources = stopped ++ left ∧ left ≠ [] ∧
      StopsAfter services settings query sources stopped ∧
      called services settings query sources =
        stopped.flatMap (batchOf (realSources settings sources))) ∨
    ∀ s ∈ realSources settings sources, s ∈ called services settings query sources := by
  rcases @tiersCalled_cases services settings query
    (realSources settings sources) (tiersOf settings sources) Gathered.empty with
    ⟨stopped, left, hsplit, hleft, -, htiers, henough, hlow⟩ | htiers
  · rw [products_runBatch_tiers] at henough
    refine Or.inl ⟨stopped, left, hsplit, hleft, ⟨henough, ?_⟩, called_of_rows htiers ?_⟩
    · intro first hfirst hproper
      by_cases hempty : first = []
      · rw [hempty]
        exact not_enough_nil htarget
      · rw [← products_runBatch_tiers]
        exact hlow first hfirst hempty hproper
    · intro hrows
      rw [hrows, not_enough_nil htarget] at henough
      cases henough
  · apply Or.inr
    intro s hs
    rw [called, htiers]
    apply List.mem_append_left
    exact List.mem_flatMap.2 ⟨tierOf s, mem_tiersOf hs, by simp [batchOf, hs]⟩

/-- The target is first met in one place. -/
theorem StopsAfter.unique {stopped stopped' left left' : List ℤ}
    (h : StopsAfter services settings query sources stopped)
    (h' : StopsAfter services settings query sources stopped')
    (hsplit : stopped ++ left = stopped' ++ left') : stopped = stopped' := by
  by_contra hne
  rcases List.append_eq_append_iff.1 hsplit with ⟨mid, hmid, -⟩ | ⟨mid, hmid, -⟩
  · have hlow := h'.not_before stopped ⟨mid, hmid.symm⟩ hne
    rw [h.enough_rows] at hlow
    cases hlow
  · have hlow := h.not_before stopped' ⟨mid, hmid.symm⟩ (Ne.symm hne)
    rw [h'.enough_rows] at hlow
    cases hlow

/-- A source of a tier after the one that met the target is not asked. -/
theorem exists_not_called (htarget : 1 ≤ settings.target) {stopped left : List ℤ}
    (hsplit : tiersOf settings sources = stopped ++ left) (hleft : left ≠ [])
    (hstops : StopsAfter services settings query sources stopped) :
    ∃ s ∈ realSources settings sources, s ∉ called services settings query sources := by
  obtain ⟨tier, rest, rfl⟩ := List.exists_cons_of_ne_nil hleft
  have htier : tier ∈ tiersOf settings sources := by simp [hsplit]
  rw [tiersOf, List.mem_insertionSort, List.mem_dedup] at htier
  obtain ⟨s, hs, rfl⟩ := List.mem_map.1 htier
  obtain ⟨husable, hreal⟩ := mem_realSources.1 hs
  refine ⟨s, hs, fun hcalled => ?_⟩
  have hreaches := (mem_called_iff.1 hcalled).2
  simp only [Reaches, hreal, Bool.false_eq_true, if_false] at hreaches
  apply hreaches
  rcases List.eq_nil_or_concat stopped with rfl | ⟨before, last, rfl⟩
  · have henough := hstops.enough_rows
    rw [show rowsOfTiers settings query sources [] = [] from rfl, not_enough_nil htarget] at henough
    cases henough
  · rw [List.concat_eq_append] at hsplit hstops
    refine ⟨before, last, tierOf s :: rest, by simp [hsplit], ?_, ?_⟩
    · have hsorted := sorted_tiersOf settings sources
      rw [hsplit] at hsorted
      exact (List.pairwise_append.1 hsorted).2.2 last (by simp) _ List.mem_cons_self
    · rw [products_runBatch_tiers]
      exact hstops.enough_rows

/-- Where the target is first met with tiers left, the loop asks no further. -/
theorem called_of_stopsAfter (htarget : 1 ≤ settings.target) {stopped left : List ℤ}
    (hsplit : tiersOf settings sources = stopped ++ left) (hleft : left ≠ [])
    (hstops : StopsAfter services settings query sources stopped) :
    called services settings query sources =
      stopped.flatMap (batchOf (realSources settings sources)) := by
  rcases @called_cases services settings query sources htarget with
    ⟨stopped', left', hsplit', -, hstops', hcalled⟩ | hall
  · rw [hcalled, hstops.unique hstops' (hsplit.symm.trans hsplit')]
  · obtain ⟨s, hs, hmissing⟩ := exists_not_called htarget hsplit hleft hstops
    exact absurd (hall s hs) hmissing

/-! ## What is shown -/

/-- The number of offers shown: one for each cluster, up to the limit. -/
theorem aggregate_count (query : String) (sources : List Source) :
    (aggregate services settings query sources).1.count =
      min settings.limit (groupsBy (cluster services
        (bestByKey services (fetch services settings query sources).products))
        (bestByKey services (fetch services settings query sources).products)).length := by
  have hcount : (aggregate services settings query sources).1.count =
      ((aggregate services settings query sources).1.results.map Offer.toListing).length := by
    simp [aggregate]
  rw [hcount, aggregate_results, List.length_take, byPrice, List.length_insertionSort,
    List.length_map]

/-- There are `target` clusters when as many of the rows kept are not connected. -/
theorem target_le_clusters_iff (htarget : 1 ≤ settings.target) (rows : List Listing) :
    settings.target ≤ ((groupsBy (cluster services (bestByKey services rows))
        (bestByKey services rows)).length : ℤ) ↔ TargetApart services settings rows := by
  have hkept : bestByKey services rows = cheapestOfKeys services rows := bestByKey_eq rows
  have hapart : ∀ apart : List Listing, apart ⊆ cheapestOfKeys services rows →
      ((apart.Pairwise fun p q => cluster services (cheapestOfKeys services rows) p ≠
          cluster services (cheapestOfKeys services rows) q) ↔
        apart.Pairwise fun p q =>
          ¬ Relation.EqvGen (Alike services (cheapestOfKeys services rows)) p q) := by
    intro apart hsubset
    apply List.Pairwise.iff_of_mem
    intro p q hp hq
    exact not_congr (cluster_eq_iff (hkept ▸ nodup_bestByKey rows) (hsubset hp) (hsubset hq))
  obtain ⟨n, hn⟩ := Int.eq_ofNat_of_zero_le (show 0 ≤ settings.target by omega)
  rw [hkept, hn, Nat.cast_le, le_length_groupsBy_iff, TargetApart, hn]
  constructor
  · rintro ⟨apart, hlength, hsubset, hdiffer⟩
    exact ⟨apart, by rw [hlength], hsubset, (hapart apart hsubset).1 hdiffer⟩
  · rintro ⟨apart, hlength, hsubset, hdiffer⟩
    exact ⟨apart, Nat.cast_injective hlength, hsubset, (hapart apart hsubset).2 hdiffer⟩

/-- The target is shown exactly when the rows fetched hold `target` products. -/
theorem target_le_count_iff (htarget : 1 ≤ settings.target)
    (hlimit : settings.target ≤ settings.limit) :
    settings.target ≤ ((aggregate services settings query sources).1.count : ℤ) ↔
      TargetApart services settings (fetch services settings query sources).products := by
  rw [aggregate_count, Nat.cast_min, le_min_iff, ← target_le_clusters_iff htarget]
  exact and_iff_right hlimit

/-- A search that shows fewer offers than the target has asked every source that is no
fallback, exactly when the loop leaves tiers unasked only with `target` products. -/
theorem short_only_when_all_asked_iff (htarget : 1 ≤ settings.target)
    (hlimit : settings.target ≤ settings.limit) :
    (((aggregate services settings query sources).1.count : ℤ) < settings.target →
        ∀ s ∈ realSources settings sources, s ∈ called services settings query sources) ↔
      StopsWithEnough services settings query sources := by
  have hfetched : ∀ {stopped : List ℤ}, called services settings query sources =
      stopped.flatMap (batchOf (realSources settings sources)) →
        (fetch services settings query sources).products =
          rowsOfTiers settings query sources stopped := by
    intro stopped hcalled
    rw [fetch_eq, hcalled, products_runBatch_tiers]
  constructor
  · intro hall stopped left hsplit hleft hstops
    obtain ⟨s, hs, hmissing⟩ := exists_not_called htarget hsplit hleft hstops
    have hshown : ¬ ((aggregate services settings query sources).1.count : ℤ) < settings.target :=
      fun hshort => hmissing (hall hshort s hs)
    rw [← hfetched (called_of_stopsAfter htarget hsplit hleft hstops),
      ← target_le_count_iff htarget hlimit]
    exact not_lt.1 hshown
  · intro hstopping hshort
    rcases called_cases htarget with ⟨stopped, left, hsplit, hleft, hstops, hcalled⟩ | hall
    · have hshown := (target_le_count_iff htarget hlimit).2
        (hfetched hcalled ▸ hstopping stopped left hsplit hleft hstops)
      exact absurd hshort (not_lt.2 hshown)
    · exact hall

end Stopping

/-! ## A search that stops short -/

/-- Two rows of one product under two titles, and a source of the second tier. -/
def stopping : List Source :=
  [steady "first" [row "first" "sony headphones" 300, row "first" "sony earphones" 200],
    { steady "second" [row "second" "bose headphones" 250] with tier := some 2 }]

/-- Titles that all mean the same. -/
def synonymous : Services := { plainServices with cosine := fun _ _ => 1 }

/-- A target of two offers. -/
def pair : Settings := ⟨24, 2, fun _ => false⟩

/-- The search that stops short does so at two keys of one product. -/
theorem short_only_when_all_asked_stopping :
    (((aggregate synonymous pair "headphones" stopping).1.count : ℤ) < pair.target →
        ∀ s ∈ realSources pair stopping, s ∈ called synonymous pair "headphones" stopping) ↔
      StopsWithEnough synonymous pair "headphones" stopping :=
  short_only_when_all_asked_iff (by decide) (by decide)

/-- The loop stops at two keys, one offer is shown, and the second tier is not asked. -/
theorem short_and_not_all_asked :
    ¬ ∀ (services : Services) (settings : Settings) (query : String) (sources : List Source),
      (∀ src ∈ sources, ∃ products answeredAt, src.search query = .found products answeredAt) →
        1 ≤ settings.target → settings.target ≤ settings.limit →
          ((aggregate services settings query sources).1.count : ℤ) < settings.target →
            ∀ s ∈ realSources settings sources, s ∈ called services settings query sources := by
  intro hall
  have hasked := hall synonymous pair "headphones" stopping (by simp [stopping, steady])
    (by decide) (by decide) (by decide +kernel)
  have hsecond := hasked _ (List.mem_of_getElem? (i := 1) rfl)
  exact absurd (List.mem_map_of_mem (f := Source.name) hsecond) (by decide +kernel)

end DealFinder.Shop
