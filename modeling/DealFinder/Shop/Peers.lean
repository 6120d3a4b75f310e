/-
# Peer estimates

The estimate of an offer is a median of prices of other offers, picked by their titles
alone. So it lies between those prices, and the offer's own price does not move it. In
`score_offers` the other offers are the rows that may be rated and embedded, wherever they
stand among the rest (`vouched_by_others`).
-/

import DealFinder.Shop.Rounding
import DealFinder.Shop.Search
import Mathlib.Data.List.Induction

namespace DealFinder.Shop

open DealFinder.Math

/-! ## Medians -/

/-- A median lies between two of its data. -/
theorem exists_le_median_le {data : List ℚ} (h : data ≠ []) :
    (∃ x ∈ data, x ≤ median data) ∧ ∃ x ∈ data, median data ≤ x := by
  have hlength := List.length_pos_iff.2 h
  have hperm := List.perm_insertionSort (· ≤ ·) data
  have hmem : ∀ n < data.length, (data.insertionSort (· ≤ ·)).getD n 0 ∈ data := by
    intro n hn
    rw [List.getD_eq_getElem?_getD, List.getElem?_eq_getElem (by rwa [hperm.length_eq]),
      Option.getD_some]
    exact hperm.subset (List.getElem_mem _)
  unfold median
  dsimp only
  split_ifs with hodd
  · have hmiddle := hmem (data.length / 2) (by omega)
    exact ⟨⟨_, hmiddle, le_rfl⟩, _, hmiddle, le_rfl⟩
  · have hlow := hmem (data.length / 2 - 1) (by omega)
    have hhigh := hmem (data.length / 2) (by omega)
    generalize (data.insertionSort (· ≤ ·)).getD (data.length / 2 - 1) 0 = low at hlow ⊢
    generalize (data.insertionSort (· ≤ ·)).getD (data.length / 2) 0 = high at hhigh ⊢
    rcases le_total low high with hle | hle
    · exact ⟨⟨low, hlow, by linarith⟩, high, hhigh, by linarith⟩
    · exact ⟨⟨high, hhigh, by linarith⟩, low, hlow, by linarith⟩

/-! ## One list of offers -/

section Offers

variable {services : Services} {offers offers' : List Listing} {i : ℕ}

/-- `argsort` lists the places of what it sorts. -/
def SortsRows (services : Services) : Prop :=
  ∀ keys, (services.argsort keys).Perm (List.range keys.length)

/-- The estimate lies between the prices of two other offers. -/
def AmongOthers (offers : List Listing) (i : ℕ) (estimate : ℚ) : Prop :=
  (∃ j r, j ≠ i ∧ offers[j]? = some r ∧ r.price ≤ estimate) ∧
    ∃ j r, j ≠ i ∧ offers[j]? = some r ∧ estimate ≤ r.price

/-- Two lists of offers have the same titles, and the same prices but for one offer's own. -/
structure AgreeBut (i : ℕ) (offers offers' : List Listing) : Prop where
  titles : offers.map (fun r => r.title) = offers'.map fun r => r.title
  prices : ∀ j, j ≠ i → offers[j]?.map (fun r => r.price) = offers'[j]?.map fun r => r.price

/-- The places of the nearest neighbours. -/
def neighbours (services : Services) (offers : List Listing) (title : String) (i : ℕ) : List ℕ :=
  ((services.argsort (offers.map fun other => -services.similarity title other.title)).filter
    fun j => j ≠ i).take 5

theorem peerFair_of_get {r : Listing} (hr : offers[i]? = some r) :
    peerFair services offers i =
      if 2 ≤ (neighbours services offers r.title i).length then
        some (median ((neighbours services offers r.title i).filterMap fun j =>
          offers[j]?.map fun other => other.price))
      else none := by
  rw [peerFair, hr]
  rfl

/-- Every neighbour is the place of another offer, and of three offers two are. -/
theorem neighbours_spec (hsorts : SortsRows services) (hlength : 3 ≤ offers.length)
    (hi : i < offers.length) (title : String) :
    2 ≤ (neighbours services offers title i).length ∧
      ∀ j ∈ neighbours services offers title i, j < offers.length ∧ j ≠ i := by
  have hperm := hsorts (offers.map fun other => -services.similarity title other.title)
  rw [List.length_map] at hperm
  constructor
  · have hothers : ((services.argsort (offers.map fun other =>
        -services.similarity title other.title)).filter fun j => j ≠ i).length + 1 =
          offers.length := by
      have hfilter := (hperm.filter fun j => j ≠ i).length_eq
      have herase : ((List.range offers.length).filter fun j => j ≠ i).length + 1 =
          offers.length := by
        have herased := List.length_erase_of_mem (List.mem_range.2 hi)
        have hfilter : (List.range offers.length).filter (fun j => j ≠ i) =
            (List.range offers.length).erase i := by
          rw [List.nodup_range.erase_eq_filter]
          exact List.filter_congr fun j _ => by rw [decide_not, bne, beq_eq_decide]
        rw [hfilter, herased, List.length_range]
        omega
      omega
    rw [neighbours, List.length_take]
    omega
  · intro j hj
    obtain ⟨hplace, hne⟩ := List.mem_filter.1 (List.mem_of_mem_take hj)
    exact ⟨List.mem_range.1 (hperm.subset hplace), of_decide_eq_true hne⟩

/-- Of three offers or more each has an estimate, among the prices of the others. -/
theorem exists_peerFair (hsorts : SortsRows services) (hlength : 3 ≤ offers.length)
    (hi : i < offers.length) :
    ∃ estimate, (peerFairPrices services offers).1 i = some estimate ∧
      AmongOthers offers i estimate := by
  have hr : offers[i]? = some offers[i] := List.getElem?_eq_getElem hi
  obtain ⟨htwo, hplaces⟩ := neighbours_spec hsorts hlength hi offers[i].title
  rw [peerFairPrices, if_neg (by omega)]
  refine ⟨_, (peerFair_of_get hr).trans (if_pos htwo), ?_⟩
  generalize neighbours services offers offers[i].title i = nbrs at htwo hplaces
  have hmem : ∀ x ∈ nbrs.filterMap (fun j => offers[j]?.map fun other => other.price),
      ∃ j r, j ≠ i ∧ offers[j]? = some r ∧ r.price = x := by
    intro x hx
    obtain ⟨j, hj, hprice⟩ := List.mem_filterMap.1 hx
    obtain ⟨r, hget, rfl⟩ := Option.map_eq_some_iff.1 hprice
    exact ⟨j, r, (hplaces j hj).2, hget, rfl⟩
  have hsome : nbrs.filterMap (fun j => offers[j]?.map fun other => other.price) ≠ [] := by
    obtain ⟨j, hj⟩ := List.exists_mem_of_length_pos (show 0 < nbrs.length by omega)
    have hprice := congrArg (Option.map fun other : Listing => other.price)
      (List.getElem?_eq_getElem (hplaces j hj).1)
    exact List.ne_nil_of_mem (List.mem_filterMap.2 ⟨j, hj, hprice⟩)
  obtain ⟨⟨low, hlow, hle⟩, high, hhigh, hge⟩ := exists_le_median_le hsome
  obtain ⟨j, r, hj, hr, rfl⟩ := hmem low hlow
  obtain ⟨k, s, hk, hs, rfl⟩ := hmem high hhigh
  exact ⟨⟨j, r, hj, hr, hle⟩, k, s, hk, hs, hge⟩

/-- The estimate of an offer does not read its own price. -/
theorem peerFairPrices_congr (h : AgreeBut i offers offers') :
    (peerFairPrices services offers).1 i = (peerFairPrices services offers').1 i := by
  have hlength : offers.length = offers'.length := by
    simpa using congrArg List.length h.titles
  have htitle : offers[i]?.map (fun r => r.title) = offers'[i]?.map fun r => r.title := by
    rw [← List.getElem?_map, ← List.getElem?_map, h.titles]
  unfold peerFairPrices
  rw [hlength]
  split_ifs
  · rfl
  · show peerFair services offers i = peerFair services offers' i
    cases hr : offers[i]? with
    | none =>
        have hr' : offers'[i]? = none := by
          rw [hr] at htitle
          exact Option.map_eq_none_iff.1 htitle.symm
        rw [peerFair, peerFair, hr, hr']
    | some r =>
        obtain ⟨r', hr', hsame⟩ := Option.map_eq_some_iff.1 (htitle.symm.trans (by rw [hr]; rfl))
        rw [peerFair_of_get hr, peerFair_of_get hr', hsame]
        have hneighbours : neighbours services offers r.title i =
            neighbours services offers' r.title i := by
          have hkeys : offers.map (fun other => -services.similarity r.title other.title) =
              offers'.map fun other => -services.similarity r.title other.title := by
            have hmap := congrArg (List.map fun t => -services.similarity r.title t) h.titles
            rwa [List.map_map, List.map_map] at hmap
          rw [neighbours, neighbours, hkeys]
        have hprices : (neighbours services offers' r.title i).filterMap
            (fun j => offers[j]?.map fun other => other.price) =
              (neighbours services offers' r.title i).filterMap
                fun j => offers'[j]?.map fun other => other.price := by
          apply List.filterMap_congr
          intro j hj
          exact h.prices j (of_decide_eq_true (List.mem_filter.1 (List.mem_of_mem_take hj)).2)
        rw [hneighbours, hprices]

end Offers

/-! ## Through the scorer -/

section Scorer

variable {services : Services}

/-- `rows`, in `score_offers`. -/
def mixedRows (offers : List Offer) : List Listing :=
  (offers.map Offer.toListing).filter fun r => mayComingle r.source

theorem scoreOffers_live (services : Services) (offers : List Offer) (median : ℚ) :
    scoreOffers services .live offers median = scoreLive services (mixedRows offers) median := rfl

/-- The rows that may be mixed, rated and embedded. -/
def licensedRows (offers : List Offer) : List Listing :=
  (mixedRows offers).filter fun r => mayVerdict r.source && mayEmbed r.source

/-- The estimate that `score_offers` has for the row at a place. -/
def peerEstimate (services : Services) (rows : List Listing) (i : ℕ) : Option ℚ :=
  if i ∈ peerPlaces rows then
    (peerFairPrices services ((peerPlaces rows).filterMap fun i => rows[i]?)).1
      ((peerPlaces rows).idxOf i)
  else none

theorem scoreLive_eq (services : Services) (rows : List Listing) (median : ℚ) :
    (scoreLive services rows median).1 =
      (rows.zipIdx.map fun entry =>
        scoreRow services median entry.1 (peerEstimate services rows entry.2)).insertionSort
          fun x y => value y ≤ value x := by
  unfold scoreLive peerEstimate
  rfl

theorem mem_scoreLive {rows : List Listing} {median : ℚ} {x : Scored} :
    x ∈ (scoreLive services rows median).1 ↔
      ∃ i r, rows[i]? = some r ∧
        scoreRow services median r (peerEstimate services rows i) = x := by
  rw [scoreLive_eq, List.mem_insertionSort, List.mem_map]
  constructor
  · rintro ⟨⟨r, i⟩, hentry, hx⟩
    exact ⟨i, r, List.mem_zipIdx_iff_getElem?.1 hentry, hx⟩
  · rintro ⟨i, r, hr, hx⟩
    exact ⟨(r, i), List.mem_zipIdx_iff_getElem?.2 hr, hx⟩

/-- Reading a list at places that it has gives a row for each place. -/
theorem getElem?_filterMap_places {rows : List Listing} {places : List ℕ}
    (h : ∀ i ∈ places, i < rows.length) (n : ℕ) :
    (places.filterMap fun i => rows[i]?)[n]? = places[n]?.bind fun i => rows[i]? := by
  induction places generalizing n with
  | nil => rfl
  | cons i rest ih =>
      obtain ⟨hi, hrest⟩ := List.forall_mem_cons.1 h
      have hr : rows[i]? = some rows[i] := List.getElem?_eq_getElem hi
      rw [List.filterMap_cons_some hr]
      cases n with
      | zero => exact hr.symm
      | succ n => exact ih hrest n

/-- The rows at the peers' places are those that may be rated and embedded. -/
theorem filterMap_peerPlaces (rows : List Listing) :
    ((peerPlaces rows).filterMap fun i => rows[i]?) =
      rows.filter fun r => mayVerdict r.source && mayEmbed r.source := by
  induction rows using List.reverseRecOn with
  | nil => rfl
  | append_singleton rows r ih =>
      have hplaces : (List.range rows.length).filter (fun i => (rows ++ [r])[i]?.any fun r =>
          mayVerdict r.source && mayEmbed r.source) = peerPlaces rows := by
        apply List.filter_congr
        intro i hi
        rw [List.getElem?_append_left (List.mem_range.1 hi)]
      have hread : (peerPlaces rows).filterMap (fun i => (rows ++ [r])[i]?) =
          (peerPlaces rows).filterMap fun i => rows[i]? := by
        apply List.filterMap_congr
        intro i hi
        rw [List.getElem?_append_left (List.mem_range.1 (List.mem_filter.1 hi).1)]
      rw [List.filter_append, ← ih, ← hread, ← hplaces, peerPlaces, List.length_append,
        List.length_singleton, List.range_succ, List.filter_append, List.filterMap_append]
      congr 1
      by_cases hallowed : (mayVerdict r.source && mayEmbed r.source) = true
      · simp [hallowed]
      · simp [hallowed]

/-- A row that may be rated and embedded, by its place among these and among all. -/
theorem licensed_getElem? {rows : List Listing} {n : ℕ} {r : Listing} :
    (rows.filter fun r => mayVerdict r.source && mayEmbed r.source)[n]? = some r ↔
      ∃ i ∈ peerPlaces rows, rows[i]? = some r ∧ (peerPlaces rows).idxOf i = n := by
  have hnodup : (peerPlaces rows).Nodup := List.nodup_range.filter _
  have hlt : ∀ i ∈ peerPlaces rows, i < rows.length :=
    fun i hi => List.mem_range.1 (List.mem_filter.1 hi).1
  rw [← filterMap_peerPlaces, getElem?_filterMap_places hlt, Option.bind_eq_some_iff]
  constructor
  · rintro ⟨i, hi, hr⟩
    obtain ⟨hn, rfl⟩ := List.getElem?_eq_some_iff.1 hi
    exact ⟨_, List.getElem_mem hn, hr, hnodup.idxOf_getElem n hn⟩
  · rintro ⟨i, hi, hr, rfl⟩
    refine ⟨i, ?_, hr⟩
    rw [List.getElem?_eq_getElem (List.idxOf_lt_length_of_mem hi), List.getElem_idxOf]

theorem peerEstimate_of_mem {rows : List Listing} {i : ℕ} (h : i ∈ peerPlaces rows) :
    peerEstimate services rows i =
      (peerFairPrices services (rows.filter fun r => mayVerdict r.source && mayEmbed r.source)).1
        ((peerPlaces rows).idxOf i) := by
  rw [peerEstimate, if_pos h, filterMap_peerPlaces]

/-- A row rated by its peers was rated by the estimate it was given. -/
theorem scoreRow_peers {median : ℚ} {r : Listing} {peer : Option ℚ}
    (h : (scoreRow services median r peer).basis = some .peers) :
    ∃ estimate, peer = some estimate ∧
      (scoreRow services median r peer).fair = some (roundTo 2 estimate) := by
  by_cases hrated : mayVerdict r.source = true
  · obtain ⟨-, -, hfair, hbasis⟩ := scoreRow_of_rated services median peer hrated
    rw [hbasis] at h
    rw [hfair]
    unfold fairPrice at h ⊢
    split at h
    · cases h
    · cases peer with
      | none => cases h
      | some estimate =>
          refine ⟨estimate, rfl, ?_⟩
          by_cases hpos : 0 < estimate
          · simp [hpos]
          · simp [hpos] at h
  · rw [scoreRow_of_unrated hrated] at h
    cases h

/-- **Vouched for by others.** Each of three offers or more has an estimate, among the
prices of the others, which its own price does not move. And a row of the result that is
rated by its peers is rated by such an estimate among the rows that may be rated and
embedded, whatever other rows there are. -/
theorem vouched_by_others (services : Services) (hsorts : SortsRows services) :
    (∀ (offers : List Listing) (i : ℕ), 3 ≤ offers.length → i < offers.length →
      ∃ estimate, (peerFairPrices services offers).1 i = some estimate ∧
        AmongOthers offers i estimate ∧
        ∀ offers', AgreeBut i offers offers' →
          (peerFairPrices services offers').1 i = some estimate) ∧
    ∀ (offers : List Offer) (median : ℚ),
      ∀ x ∈ (scoreOffers services .live offers median).1, x.basis = some .peers →
        ∃ n r estimate, (licensedRows offers)[n]? = some r ∧
          x = scoreRow services median r (some estimate) ∧
          x.fair = some (roundTo 2 estimate) ∧
          AmongOthers (licensedRows offers) n estimate ∧
          ∀ (offers' : List Offer) (median' : ℚ),
            AgreeBut n (licensedRows offers) (licensedRows offers') →
            ∃ r', (licensedRows offers')[n]? = some r' ∧
              scoreRow services median' r' (some estimate) ∈
                (scoreOffers services .live offers' median').1 := by
  constructor
  · intro offers i hlength hi
    obtain ⟨estimate, hestimate, hamong⟩ := exists_peerFair hsorts hlength hi
    exact ⟨estimate, hestimate, hamong,
      fun offers' h => (peerFairPrices_congr h).symm.trans hestimate⟩
  · intro offers median x hx hbasis
    rw [scoreOffers_live] at hx
    obtain ⟨i, r, hr, rfl⟩ := mem_scoreLive.1 hx
    obtain ⟨estimate, hpeer, hfair⟩ := scoreRow_peers hbasis
    have hi : i ∈ peerPlaces (mixedRows offers) := by
      by_contra hout
      rw [peerEstimate, if_neg hout] at hpeer
      cases hpeer
    set n := (peerPlaces (mixedRows offers)).idxOf i with hn
    have hplace : (licensedRows offers)[n]? = some r := licensed_getElem?.2 ⟨i, hi, hr, rfl⟩
    have hestimate : (peerFairPrices services (licensedRows offers)).1 n = some estimate :=
      (peerEstimate_of_mem hi).symm.trans hpeer
    refine ⟨n, r, estimate, hplace, congrArg _ hpeer, hfair, ?_, ?_⟩
    · have hlength : 3 ≤ (licensedRows offers).length := by
        by_contra hfew
        rw [peerFairPrices, if_pos (not_le.1 hfew)] at hestimate
        cases hestimate
      obtain ⟨same, hsame, hamong⟩ :=
        exists_peerFair hsorts hlength (List.getElem?_eq_some_iff.1 hplace).1
      obtain rfl := Option.some.inj (hsame.symm.trans hestimate)
      exact hamong
    · intro offers' median' hagree
      have htitles := congrArg (fun titles => titles[n]?) hagree.titles
      simp only [List.getElem?_map, hplace] at htitles
      obtain ⟨r', hr', -⟩ := Option.map_eq_some_iff.1 htitles.symm
      obtain ⟨i', hi', hget, hindex⟩ := licensed_getElem?.1 hr'
      have hestimate' : (peerFairPrices services (licensedRows offers')).1 n = some estimate :=
        (peerFairPrices_congr hagree).symm.trans hestimate
      refine ⟨r', hr', ?_⟩
      rw [scoreOffers_live]
      refine mem_scoreLive.2 ⟨i', r', hget, ?_⟩
      rw [peerEstimate_of_mem hi', hindex]
      exact congrArg _ hestimate'

end Scorer

theorem sortsRows_plainServices : SortsRows plainServices :=
  fun _ => List.perm_insertionSort _ _

/-- Three lamps, the first of them priced as a lure. -/
def threeLamps : List Listing :=
  [⟨row "BestBuy" "lamp" 1, "now"⟩, ⟨row "BestBuy" "lamp" 40, "now"⟩,
    ⟨row "BestBuy" "lamp" 50, "now"⟩]

/-- The lure is held against the other two. -/
theorem vouched_by_others_lamps :
    ∃ estimate, (peerFairPrices plainServices threeLamps).1 0 = some estimate ∧
      AmongOthers threeLamps 0 estimate := by
  obtain ⟨hestimates, -⟩ := vouched_by_others plainServices sortsRows_plainServices
  obtain ⟨estimate, hestimate, hamong, -⟩ := hestimates threeLamps 0 (by decide) (by decide)
  exact ⟨estimate, hestimate, hamong⟩

end DealFinder.Shop
