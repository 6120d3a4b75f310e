/-
# Semantic deduplication

Offers whose titles look like one product and are close enough in meaning are
united, and each cluster keeps its cheapest offer. The clusters are the classes
of the closure of `same_product` (`cluster_eq_iff`).
-/

import DealFinder.Math.Grouping
import DealFinder.Math.UnionFind
import DealFinder.Shop.Product
import Mathlib.Data.Finset.Dedup
import Mathlib.Data.Finset.Empty

namespace DealFinder.Shop

open DealFinder.Math

/-! ## Titles -/

/-- The characters of `_TOKEN`. -/
def isTokenChar (c : Char) : Bool := ('a' ≤ c && c ≤ 'z') || ('0' ≤ c && c ≤ '9')

/-- `_TOKEN.findall`. -/
def findTokens (text : String) : List (List Char) :=
  (text.toList.splitOnP fun c => !isTokenChar c).filter fun token => token ≠ []

section Titles

variable (services : Services)

/-- `_model_tokens`: the tokens with a digit. -/
def modelTokens (title : String) : Finset (List Char) :=
  ((findTokens (services.lower title)).filter fun token => token.any Char.isDigit).toFinset

/-- `_first_token`. -/
def firstToken (title : String) : List Char := (findTokens (services.lower title)).headD []

/-- `sim_threshold`. -/
def simThreshold : ℚ := 9 / 10

/-- `no_model_threshold`. -/
def noModelThreshold : ℚ := 19 / 20

/-- `same_product`, of the titles at two places. -/
def sameProduct (title title' : String) : Bool :=
  if firstToken services title ≠ firstToken services title' then false
  else if modelTokens services title ≠ ∅ ∧ modelTokens services title' ≠ ∅ then
    decide (modelTokens services title = modelTokens services title') &&
      decide (simThreshold ≤ services.cosine title title')
  else if modelTokens services title = ∅ ∧ modelTokens services title' = ∅ then
    decide (noModelThreshold ≤ services.cosine title title')
  else false

/-! ## Clusters -/

/-- The places compared, in the order of the loops. -/
def places (n : ℕ) : List (ℕ × ℕ) :=
  (List.range n).flatMap fun i => (List.range' (i + 1) (n - (i + 1))).map fun j => (i, j)

/-- `same_product(i, j)`. -/
def samePlace (items : List Listing) (place : ℕ × ℕ) : Bool :=
  match items[place.1]?, items[place.2]? with
  | some p, some q => sameProduct services p.title q.title
  | _, _ => false

/-- The forest after the unions. -/
def unitedForest (items : List Listing) : Forest ℕ :=
  (Forest.discrete ℕ).unions ((places items.length).filter (samePlace services items))

/-- The loop that fills `clusters`; each `find` halves its path. -/
def clusterLoop : List (Listing × ℕ) → Forest ℕ → Dict ℕ (List Listing) → Dict ℕ (List Listing)
  | [], _, clusters => clusters
  | (p, i) :: rest, forest, clusters =>
      let (root, forest) := forest.find i
      clusterLoop rest forest (clusters.set root (clusters.getD root [] ++ [p]))

/-- `min(cluster, key=lambda p: p.price)`. -/
def cheapestOf : List Listing → Option Listing
  | [] => none
  | p :: rest => some (cheapest (fun q : Listing => q.price) (p, rest))

/-- `dedup_by_embedding`: the kept offers, and what was handed to the model. -/
def dedupByEmbedding (items : List Listing) : List Listing × List Handed :=
  if items = [] then ([], [])
  else
    ((clusterLoop items.zipIdx (unitedForest services items) Dict.empty).values.filterMap
        cheapestOf,
      items.map fun p => p.handed)

end Titles

/-! ## What the clusters are -/

variable {services : Services} {items : List Listing}

theorem mem_places {n i j : ℕ} : (i, j) ∈ places n ↔ i < j ∧ j < n := by
  simp only [places, List.mem_flatMap, List.mem_range, List.mem_map, Prod.mk.injEq,
    List.mem_range'_1]
  constructor
  · rintro ⟨i', hi', j', hj', rfl, rfl⟩
    omega
  · rintro ⟨hij, hj⟩
    exact ⟨i, by omega, j, by omega, rfl, rfl⟩

theorem samePlace_iff {i j : ℕ} :
    samePlace services items (i, j) = true ↔
      ∃ p q, items[i]? = some p ∧ items[j]? = some q ∧
        sameProduct services p.title q.title = true := by
  unfold samePlace
  cases hp : items[i]? with
  | none => simp
  | some p => cases hq : items[j]? with
    | none => simp
    | some q => simp

/-- One offer stands before another of the same product. -/
def Alike (services : Services) (items : List Listing) (p q : Listing) : Prop :=
  ∃ i j : ℕ, i < j ∧ items[i]? = some p ∧ items[j]? = some q ∧
    sameProduct services p.title q.title = true

/-- The root of an offer's cluster. -/
def cluster (services : Services) (items : List Listing) (p : Listing) : ℕ :=
  (unitedForest services items).root (items.idxOf p)

/-- A place is united with a later one. -/
def Joined (services : Services) (items : List Listing) (i j : ℕ) : Prop :=
  i < j ∧ samePlace services items (i, j) = true

theorem root_unitedForest_eq_iff (i j : ℕ) :
    (unitedForest services items).root i = (unitedForest services items).root j ↔
      Relation.EqvGen (Joined services items) i j := by
  have hrel : (fun u v => (Forest.discrete ℕ).root u = (Forest.discrete ℕ).root v ∨
      (u, v) ∈ (places items.length).filter (samePlace services items)) =
        fun u v => u = v ∨ Joined services items u v := by
    funext u v
    simp only [Forest.discrete_root, List.mem_filter, mem_places, Joined]
    refine propext (or_congr_right ⟨fun h => ⟨h.1.1, h.2⟩, fun h => ⟨⟨h.1, ?_⟩, h.2⟩⟩)
    obtain ⟨p, q, -, hq, -⟩ := samePlace_iff.1 h.2
    exact (List.getElem?_eq_some_iff.1 hq).1
  rw [unitedForest, Forest.root_unions_eq_iff, hrel]
  constructor
  · intro h
    refine Relation.EqvGen.eqvGen_le (fun u v huv => ?_) _ _ h
    rcases huv with rfl | huv
    · exact .refl u
    · exact .rel u v huv
  · exact fun h => h.mono fun u v huv => Or.inr huv

/-- A chain of places is a chain of offers, unless it never leaves one place. -/
theorem alike_of_joined {i j : ℕ} (h : Relation.EqvGen (Joined services items) i j) :
    i = j ∨ ∃ p q, items[i]? = some p ∧ items[j]? = some q ∧
      Relation.EqvGen (Alike services items) p q := by
  induction h with
  | rel i j hij =>
      obtain ⟨hlt, hplaces⟩ := hij
      obtain ⟨p, q, hp, hq, hsame⟩ := samePlace_iff.1 hplaces
      exact Or.inr ⟨p, q, hp, hq, .rel _ _ ⟨i, j, hlt, hp, hq, hsame⟩⟩
  | refl => exact Or.inl rfl
  | symm _ _ _ ih =>
      rcases ih with rfl | ⟨p, q, hp, hq, hpq⟩
      · exact Or.inl rfl
      · exact Or.inr ⟨q, p, hq, hp, hpq.symm _ _⟩
  | trans _ _ _ _ _ ih ih' =>
      rcases ih with rfl | ⟨p, q, hp, hq, hpq⟩
      · exact ih'
      · rcases ih' with rfl | ⟨q', r, hq', hr, hqr⟩
        · exact Or.inr ⟨p, q, hp, hq, hpq⟩
        · obtain rfl := Option.some.inj (hq.symm.trans hq')
          exact Or.inr ⟨p, r, hp, hr, hpq.trans _ _ _ hqr⟩

theorem joined_of_alike (hitems : items.Nodup) {p q : Listing}
    (h : Relation.EqvGen (Alike services items) p q) :
    Relation.EqvGen (Joined services items) (items.idxOf p) (items.idxOf q) := by
  induction h with
  | rel p q hpq =>
      obtain ⟨i, j, hlt, hi, hj, hsame⟩ := hpq
      obtain ⟨hi', rfl⟩ := List.getElem?_eq_some_iff.1 hi
      obtain ⟨hj', rfl⟩ := List.getElem?_eq_some_iff.1 hj
      rw [hitems.idxOf_getElem, hitems.idxOf_getElem]
      exact .rel _ _ ⟨hlt, samePlace_iff.2 ⟨_, _, hi, hj, hsame⟩⟩
  | refl => exact .refl _
  | symm _ _ _ ih => exact .symm _ _ ih
  | trans _ _ _ _ _ ih ih' => exact .trans _ _ _ ih ih'

/-- Two offers share a cluster when a chain of alike offers leads from one to the other. -/
theorem cluster_eq_iff (hitems : items.Nodup) {p q : Listing} (hp : p ∈ items) (hq : q ∈ items) :
    cluster services items p = cluster services items q ↔
      Relation.EqvGen (Alike services items) p q := by
  rw [cluster, cluster, root_unitedForest_eq_iff]
  constructor
  · intro h
    rcases alike_of_joined h with heq | ⟨r, s, hr, hs, hrs⟩
    · rw [(List.idxOf_inj hp).1 heq]
      exact .refl q
    · obtain rfl := Option.some.inj ((List.getElem?_idxOf hp).symm.trans hr)
      obtain rfl := Option.some.inj ((List.getElem?_idxOf hq).symm.trans hs)
      exact hrs
  · exact joined_of_alike hitems

/-- Filling the clusters groups the offers by their roots. -/
theorem clusterLoop_eq (entries : List (Listing × ℕ)) (forest : Forest ℕ)
    (clusters : Dict ℕ (List Listing)) :
    clusterLoop entries forest clusters =
      entries.foldl (gather (fun entry => forest.root entry.2) (fun entry => [entry.1])
        fun members entry => members ++ [entry.1]) clusters := by
  induction entries generalizing forest clusters with
  | nil => rfl
  | cons entry rest ih =>
      obtain ⟨p, i⟩ := entry
      have hstep : clusterLoop ((p, i) :: rest) forest clusters =
          clusterLoop rest (forest.find i).2 (clusters.set (forest.find i).1
            (clusters.getD (forest.find i).1 [] ++ [p])) := rfl
      rw [hstep, List.foldl_cons, ih, Forest.root_find, Forest.find_fst]
      congr 1
      unfold gather
      cases hget : clusters.get? (forest.root i) with
      | none => simp [Dict.getD, hget]
      | some members => simp [Dict.getD, hget]

theorem zipIdx_eq_map (hitems : items.Nodup) :
    items.zipIdx = items.map fun p => (p, items.idxOf p) := by
  apply List.ext_getElem
  · simp
  · intro i hi hi'
    simp [hitems.idxOf_getElem]

/-- `dedup_by_embedding` keeps the cheapest offer of each cluster. -/
theorem dedupByEmbedding_fst (hitems : items.Nodup) :
    (dedupByEmbedding services items).1 =
      (groupsBy (cluster services items) items).map (cheapest fun p : Listing => p.price) := by
  unfold dedupByEmbedding
  split_ifs with hempty
  · simp [hempty]
  · have hmembers : ∀ (rest : List (Listing × ℕ)) (members : List Listing),
        rest.foldl (fun members entry => members ++ [entry.1]) members =
          members ++ rest.map Prod.fst := by
      intro rest
      induction rest with
      | nil => simp
      | cons entry rest ih => intro members; simp [ih]
    have hkept : ∀ group : Listing × List Listing,
        cheapestOf (group.1 :: group.2) = some (cheapest (fun p : Listing => p.price) group) :=
      fun _ => rfl
    rw [clusterLoop_eq, values_gather, zipIdx_eq_map hitems, groupsBy_map, List.map_map]
    show List.filterMap cheapestOf (List.map _ (groupsBy (cluster services items) items)) = _
    rw [List.filterMap_map]
    simp [Function.comp_def, hmembers, hkept]

theorem dedupByEmbedding_snd :
    (dedupByEmbedding services items).2 = items.map fun p => p.handed := by
  unfold dedupByEmbedding
  split_ifs with hempty
  · rw [hempty, List.map_nil]
  · rfl

end DealFinder.Shop
