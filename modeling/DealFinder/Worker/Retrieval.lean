/-
# Retrieval

`search_catalog` ranks the catalog by the cosine of the embeddings and by BM25,
fuses the two rankings, and reorders the top of the fusion by how good a deal each
item looks. The numeric libraries are parameters; scores are exact rationals here,
where the program has floats.
-/

import DealFinder.Math.Dict
import DealFinder.Shop.Features

namespace DealFinder.Worker

open DealFinder.Math DealFinder.Features

universe u

/-- What retrieval takes from the embedding model, the numeric libraries, and the price
model it fits. -/
structure Numerics (ν : Type u) where
  /-- `embed_texts`, of one text. -/
  embed : String → ν
  /-- The cosine of the query's vector and a document's. -/
  cosine : ν → ν → ℚ
  /-- `np.argsort`. -/
  argsort : List ℚ → List ℕ
  /-- `math.log`. -/
  log : ℚ → ℚ
  /-- `LinearModel().fit`, with the prediction of the fitted model. -/
  fit : List (List ℚ) → List ℚ → List ℚ → ℚ

/-- `argsort` lists the places of what it sorts. -/
def SortsPlaces {ν : Type u} (numerics : Numerics ν) : Prop :=
  ∀ keys, (numerics.argsort keys).Perm (List.range keys.length)

/-- `Catalog`: each product has its embedding. -/
structure Catalog (ν : Type u) where
  products : List Product
  embeddings : List ν
  medians : Dict String ℚ
  aligned : embeddings.length = products.length

section Retrieval

variable {ν : Type u} (unicode : Unicode) (numerics : Numerics ν)

/-- `_tok`. -/
def tok (text : String) : List (List Char) := Shop.findTokens (unicode.lower text)

/-- `product_text`. -/
def productText (p : Product) : String :=
  let specs := " ".intercalate (p.specs.map fun (key, value) => key ++ " " ++ value)
  strip (p.title ++ ". " ++ p.brand.getD "" ++ " " ++ p.category ++ ". " ++ specs)

/-! ## Rankings -/

/-- `cosine_rank`. -/
def cosineRank (query : ν) (docs : List ν) (k : ℤ) : List (ℕ × ℚ) :=
  let sims := docs.map (numerics.cosine query)
  (upTo k (numerics.argsort (sims.map fun s => -s))).map fun i => (i, sims.getD i 0)

/-- `avgdl`. -/
def avgdl (docs : List (List (List Char))) : ℚ :=
  (docs.map List.length).sum / (max 1 docs.length : ℕ)

/-- `idf`, zero for a word of no document. -/
def idf (docs : List (List (List Char))) (w : List Char) : ℚ :=
  let n : ℚ := docs.countP fun d => w ∈ d
  if n = 0 then 0 else numerics.log (1 + (docs.length - n + 1 / 2) / (n + 1 / 2))

/-- The score of one document, with `k1 = 1.5` and `b = 0.75`. -/
def bm25Score (docs : List (List (List Char))) (query d : List (List Char)) : ℚ :=
  ((query.filter fun w => w ∈ d).map fun w =>
    idf numerics docs w * (d.count w * (3 / 2 + 1)) /
      (d.count w + 3 / 2 * (1 - 3 / 4 + 3 / 4 * d.length / avgdl docs))).sum

/-- `BM25(docs).search`. -/
def bm25Search (texts : List String) (query : String) (k : ℤ) : List (ℕ × ℚ) :=
  let docs := texts.map (tok unicode)
  let scored := docs.zipIdx.map fun (d, i) => (i, bm25Score numerics docs (tok unicode query) d)
  (upTo k (scored.insertionSort fun x y => y.2 ≤ x.2)).filter fun x => 0 < x.2

/-- The body of the loops of `rrf_fuse`. -/
def rrfAdd (k : ℕ) (scores : Dict ℕ ℚ) (place : ℕ × ℕ) : Dict ℕ ℚ :=
  scores.set place.1 (scores.getD place.1 0 + 1 / (k + place.2 + 1))

/-- `rrf_fuse`: a `top` of zero keeps all. -/
def rrfFuse (rankings : List (List ℕ)) (k : ℕ) (top : ℤ) : List ℕ :=
  let scores := rankings.foldl (fun scores r => r.zipIdx.foldl (rrfAdd k) scores) Dict.empty
  let fused := (scores.entries.insertionSort fun x y => y.2 ≤ x.2).map Prod.fst
  if top = 0 then fused else upTo top fused

/-- `value_rerank`. -/
def valueRerank (docIds : List ℕ) (dealScores : List ℚ) (alpha : ℚ) : List ℕ :=
  let rel : Dict ℕ ℚ := docIds.zipIdx.foldl
    (fun rel (d, i) => rel.set d (1 - (i : ℚ) / (max 1 (docIds.length - 1) : ℕ))) Dict.empty
  let combined := fun d => (1 - alpha) * rel.getD d 0 + alpha * max 0 (dealScores.getD d 0)
  docIds.insertionSort fun d d' => combined d' ≤ combined d

/-! ## Deal scores -/

/-- The model of a category: fitted when it has three products or more. -/
def fittedModel (products : List Product) (category : String) : Option (List ℚ → ℚ) :=
  let ps := products.filter fun p => p.category = category
  if 3 ≤ ps.length then
    some (numerics.fit (ps.map (featurize unicode)) (ps.map fun p => p.price))
  else none

/-- The score of one product in `_two_signal_deal_scores`. -/
def dealScore (products : List Product) (medians : Dict String ℚ) (p : Product) : ℚ :=
  let m := Shop.medianSignal p.price (medians.getD p.id 0)
  match fittedModel unicode numerics products p.category with
  | none => m
  | some model =>
      let rf := Shop.residualFraction p.price (model (featurize unicode p))
      if 15 / 100 ≤ m ∧ 70 / 100 < rf then m - 1 else m

/-- `_two_signal_deal_scores`, by index. -/
def twoSignalDealScores (products : List Product) (medians : Dict String ℚ) : List ℚ :=
  products.map (dealScore unicode numerics products medians)

/-! ## The pipeline -/

/-- `hybrid`: the fused ranking of a search. -/
def hybrid (catalog : Catalog ν) (query : String) (k : ℤ) : List ℕ :=
  let semantic := (cosineRank numerics (numerics.embed query) catalog.embeddings
    catalog.products.length).map Prod.fst
  let keyword := (bm25Search unicode numerics (catalog.products.map productText) query
    catalog.products.length).map Prod.fst
  rrfFuse [semantic, keyword] 60 (max (k * 3) k)

/-- `search_catalog`: triples of index, product and deal score. -/
def searchCatalog (catalog : Catalog ν) (query : String) (k : ℤ) (alpha : ℚ) :
    List (ℕ × Product × ℚ) :=
  let deal := twoSignalDealScores unicode numerics catalog.products catalog.medians
  let valued := upTo k (valueRerank (hybrid unicode numerics catalog query k) deal alpha)
  valued.filterMap fun i => catalog.products[i]?.map fun p => (i, p, deal.getD i 0)

end Retrieval

/-! ## What a search returns -/

section Results

variable {ν : Type u} {unicode : Unicode} {numerics : Numerics ν}

theorem mem_foldl_rrfAdd (k : ℕ) (places : List (ℕ × ℕ)) (scores : Dict ℕ ℚ) (i : ℕ) :
    i ∈ places.foldl (rrfAdd k) scores ↔ i ∈ scores ∨ i ∈ places.map Prod.fst := by
  induction places generalizing scores with
  | nil => simp
  | cons place rest ih =>
      rw [List.foldl_cons, ih, rrfAdd, Dict.mem_set, List.map_cons, List.mem_cons]
      tauto

/-- The fused scores are of the documents ranked. -/
theorem mem_scores_iff (k : ℕ) (rankings : List (List ℕ)) (scores : Dict ℕ ℚ) (i : ℕ) :
    i ∈ rankings.foldl (fun scores r => r.zipIdx.foldl (rrfAdd k) scores) scores ↔
      i ∈ scores ∨ ∃ r ∈ rankings, i ∈ r := by
  induction rankings generalizing scores with
  | nil => simp
  | cons r rest ih =>
      have hplaces : r.zipIdx.map Prod.fst = r := by simp
      rw [List.foldl_cons, ih, mem_foldl_rrfAdd, hplaces, or_assoc]
      simp

/-- The fused list before it is cut: the keys of the scores, in some order. -/
theorem perm_fused (scores : Dict ℕ ℚ) :
    ((scores.entries.insertionSort fun x y => y.2 ≤ x.2).map Prod.fst).Perm scores.keys :=
  (List.perm_insertionSort _ _).map _

theorem nodup_rrfFuse (rankings : List (List ℕ)) (k : ℕ) (top : ℤ) :
    (rrfFuse rankings k top).Nodup := by
  unfold rrfFuse
  have hall := (perm_fused (rankings.foldl (fun scores r => r.zipIdx.foldl (rrfAdd k) scores)
    Dict.empty)).nodup_iff.2 (Dict.nodup_keys _)
  split_ifs
  · exact hall
  · exact hall.sublist (upTo_initial _ _).sublist

theorem mem_keys_scores (k : ℕ) (rankings : List (List ℕ)) (i : ℕ) :
    i ∈ (rankings.foldl (fun scores r => r.zipIdx.foldl (rrfAdd k) scores)
        (Dict.empty : Dict ℕ ℚ)).keys ↔ ∃ r ∈ rankings, i ∈ r := by
  rw [← Dict.mem_def, mem_scores_iff]
  exact or_iff_right (by simp [← Dict.get?_eq_none_iff])

theorem ranked_of_mem_rrfFuse {rankings : List (List ℕ)} {k : ℕ} {top : ℤ} {i : ℕ}
    (h : i ∈ rrfFuse rankings k top) : ∃ r ∈ rankings, i ∈ r := by
  rw [← mem_keys_scores k, ← (perm_fused _).mem_iff]
  unfold rrfFuse at h
  split_ifs at h
  · exact h
  · exact (upTo_initial _ _).subset h

/-- With a bound that is no smaller than the number of documents, none is cut. -/
theorem mem_rrfFuse {rankings : List (List ℕ)} {n : ℕ} (hbound : ∀ r ∈ rankings, ∀ i ∈ r, i < n)
    {k : ℕ} {top : ℤ} (htop : (n : ℤ) ≤ top) {i : ℕ} (hi : ∃ r ∈ rankings, i ∈ r) :
    i ∈ rrfFuse rankings k top := by
  rw [← mem_keys_scores k] at hi
  have hsub : ∀ j ∈ (rankings.foldl (fun scores r => r.zipIdx.foldl (rrfAdd k) scores)
      (Dict.empty : Dict ℕ ℚ)).keys, j ∈ List.range n := by
    intro j hj
    obtain ⟨r, hr, hjr⟩ := (mem_keys_scores k rankings j).1 hj
    exact List.mem_range.2 (hbound r hr j hjr)
  unfold rrfFuse
  generalize rankings.foldl (fun scores r => r.zipIdx.foldl (rrfAdd k) scores)
    (Dict.empty : Dict ℕ ℚ) = scores at hi hsub ⊢
  have hmem := (perm_fused scores).mem_iff.2 hi
  have hlength := (List.subperm_of_subset scores.nodup_keys hsub).length_le
  split_ifs
  · exact hmem
  · rw [upTo_of_length_le]
    · exact hmem
    · rw [(perm_fused scores).length_eq]
      rw [List.length_range] at hlength
      exact (Nat.cast_le.2 hlength).trans htop

theorem valueRerank_perm (docIds : List ℕ) (dealScores : List ℚ) (alpha : ℚ) :
    (valueRerank docIds dealScores alpha).Perm docIds := List.perm_insertionSort _ _

variable {catalog : Catalog ν} {query : String} {k : ℤ} {alpha : ℚ}

/-- A result is a product at its index, with its deal score. -/
theorem mem_searchCatalog {i : ℕ} {p : Product} {score : ℚ}
    (h : (i, p, score) ∈ searchCatalog unicode numerics catalog query k alpha) :
    catalog.products[i]? = some p ∧
      score = dealScore unicode numerics catalog.products catalog.medians p := by
  obtain ⟨j, -, hj⟩ := List.mem_filterMap.1 h
  obtain ⟨q, hq, hresult⟩ := Option.map_eq_some_iff.1 hj
  obtain ⟨rfl, rfl, rfl⟩ : j = i ∧ q = p ∧ _ = score := by simpa using hresult
  refine ⟨hq, ?_⟩
  rw [twoSignalDealScores, List.getElem?_map, hq]
  rfl

/-- No index is returned twice. -/
theorem nodup_searchCatalog :
    ((searchCatalog unicode numerics catalog query k alpha).map fun result => result.1).Nodup := by
  have hvalued : (upTo k (valueRerank (hybrid unicode numerics catalog query k)
      (twoSignalDealScores unicode numerics catalog.products catalog.medians) alpha)).Nodup :=
    ((valueRerank_perm _ _ _).nodup_iff.2 (nodup_rrfFuse _ _ _)).sublist (upTo_initial _ _).sublist
  refine List.Nodup.sublist ?_ hvalued
  rw [searchCatalog]
  generalize upTo k (valueRerank _ _ _) = valued
  induction valued with
  | nil => exact List.Sublist.slnil
  | cons i rest ih =>
      cases hi : catalog.products[i]? with
      | none => simpa [hi] using ih.cons i
      | some p => simpa [hi] using ih

/-- The rankings are of the products. -/
theorem rankings_lt (hsorts : SortsPlaces numerics) :
    ∀ r ∈ [(cosineRank numerics (numerics.embed query) catalog.embeddings
        catalog.products.length).map Prod.fst,
      (bm25Search unicode numerics (catalog.products.map productText) query
        catalog.products.length).map Prod.fst],
      ∀ i ∈ r, i < catalog.products.length := by
  intro r hr i hi
  rcases List.mem_cons.1 hr with rfl | hr
  · obtain ⟨⟨j, s⟩, hj, rfl⟩ := List.mem_map.1 hi
    obtain ⟨place, hplace, hentry⟩ := List.mem_map.1 hj
    obtain ⟨rfl, -⟩ := Prod.mk.inj hentry
    have hrange := (hsorts _).subset ((upTo_initial _ _).subset hplace)
    simpa [catalog.aligned] using hrange
  · obtain rfl := List.mem_singleton.1 hr
    obtain ⟨⟨j, s⟩, hj, rfl⟩ := List.mem_map.1 hi
    have hscored := (upTo_initial _ _).subset (List.mem_filter.1 hj).1
    rw [List.mem_insertionSort] at hscored
    obtain ⟨⟨d, place⟩, hplace, hentry⟩ := List.mem_map.1 hscored
    obtain ⟨rfl, -⟩ := Prod.mk.inj hentry
    simpa using List.snd_lt_of_mem_zipIdx hplace

/-- The ranking by meaning lists every product. -/
theorem mem_cosineRank (hsorts : SortsPlaces numerics) {i : ℕ}
    (hi : i < catalog.products.length) :
    i ∈ (cosineRank numerics (numerics.embed query) catalog.embeddings
      catalog.products.length).map Prod.fst := by
  have hplaces := hsorts (catalog.embeddings.map fun d => -numerics.cosine (numerics.embed query) d)
  rw [List.length_map, catalog.aligned] at hplaces
  have hall : ((numerics.argsort (catalog.embeddings.map
      fun d => -numerics.cosine (numerics.embed query) d)).length : ℤ) ≤
        catalog.products.length := by
    rw [hplaces.length_eq, List.length_range]
  simp only [cosineRank, List.map_map, Function.comp_def]
  rw [List.map_id', upTo_of_length_le hall]
  exact hplaces.mem_iff.2 (List.mem_range.2 hi)

/-- A search for as many results as there are products returns every product. -/
theorem searchCatalog_complete (hsorts : SortsPlaces numerics)
    (hk : (catalog.products.length : ℤ) ≤ k) {i : ℕ} {p : Product}
    (hi : catalog.products[i]? = some p) :
    (i, p, dealScore unicode numerics catalog.products catalog.medians p) ∈
      searchCatalog unicode numerics catalog query k alpha := by
  have hlt : i < catalog.products.length := (List.getElem?_eq_some_iff.1 hi).1
  have hhybrid : i ∈ hybrid unicode numerics catalog query k :=
    mem_rrfFuse (rankings_lt hsorts) (hk.trans (le_max_right _ _))
      ⟨_, List.mem_cons_self, mem_cosineRank hsorts hlt⟩
  have hsub : hybrid unicode numerics catalog query k ⊆ List.range catalog.products.length := by
    intro j hj
    obtain ⟨r, hr, hjr⟩ := ranked_of_mem_rrfFuse hj
    exact List.mem_range.2 (rankings_lt hsorts r hr j hjr)
  have hnodup : (hybrid unicode numerics catalog query k).Nodup := nodup_rrfFuse _ _ _
  have hlength := (List.subperm_of_subset hnodup hsub).length_le
  have hvalued := valueRerank_perm (hybrid unicode numerics catalog query k)
    (twoSignalDealScores unicode numerics catalog.products catalog.medians) alpha
  rw [List.length_range, ← hvalued.length_eq] at hlength
  refine List.mem_filterMap.2 ⟨i, ?_, ?_⟩
  · rw [upTo_of_length_le ((Nat.cast_le.2 hlength).trans hk)]
    exact hvalued.mem_iff.2 hhybrid
  · rw [hi, Option.map_some, List.getD_eq_getElem?_getD, twoSignalDealScores, List.getElem?_map, hi]
    rfl

end Results

end DealFinder.Worker
