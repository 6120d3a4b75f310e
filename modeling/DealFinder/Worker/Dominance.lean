/-
# Dominance

What `search_catalog` does once it has its two rankings: it fuses them, reorders the
top of the fusion by how good a deal each item looks, and cuts twice. An item that
another beats in every signal is never returned without it, nor before it.
-/

import DealFinder.Math.Precedence
import DealFinder.Worker.Suggestions

namespace DealFinder.Worker

open DealFinder.Math DealFinder.Features

/-- `search_catalog` after its two rankings and the deal scores. -/
def searchRanked (products : List Product) (semantic keyword : List ℕ) (deal : List ℚ)
    (k : ℤ) (alpha : ℚ) : List (ℕ × Product × ℚ) :=
  let hybrid := rrfFuse [semantic, keyword] 60 (max (k * 3) k)
  let valued := upTo k (valueRerank hybrid deal alpha)
  valued.filterMap fun i => products[i]?.map fun p => (i, p, deal.getD i 0)

/-- The two rankings a search makes of its catalog. -/
theorem searchCatalog_eq_searchRanked {ν : Type*} (unicode : Unicode) (numerics : Numerics ν)
    (catalog : Catalog ν) (query : String) (k : ℤ) (alpha : ℚ) :
    searchCatalog unicode numerics catalog query k alpha =
      searchRanked catalog.products
        ((cosineRank numerics (numerics.embed query) catalog.embeddings
          catalog.products.length).map Prod.fst)
        ((bm25Search unicode numerics (catalog.products.map productText) query
          catalog.products.length).map Prod.fst)
        (twoSignalDealScores unicode numerics catalog.products catalog.medians) k alpha := rfl

/-! ## The fused score -/

/-- What a ranking adds to the score of a document. -/
def rrfShare (k : ℕ) (r : List ℕ) (doc : ℕ) : ℚ :=
  if doc ∈ r then 1 / (k + r.idxOf doc + 1) else 0

theorem rrfShare_nonneg (k : ℕ) (r : List ℕ) (doc : ℕ) : 0 ≤ rrfShare k r doc := by
  unfold rrfShare
  split_ifs
  · positivity
  · exact le_rfl

/-- The earlier document gets more. -/
theorem rrfShare_lt {k : ℕ} {r : List ℕ} (hr : r.Nodup) {a b : ℕ} (h : Precedes r a b) :
    rrfShare k r b < rrfShare k r a := by
  have hindex : (r.idxOf a : ℚ) < r.idxOf b := Nat.cast_lt.2 (h.idxOf_lt hr)
  rw [rrfShare, rrfShare, if_pos h.mem_right, if_pos h.mem_left]
  apply one_div_lt_one_div_of_lt
  · positivity
  · linarith

theorem rrfShare_le {k : ℕ} {r : List ℕ} (hr : r.Nodup) {a b : ℕ}
    (h : Precedes r a b ∨ b ∉ r) : rrfShare k r b ≤ rrfShare k r a := by
  rcases h with h | h
  · exact (rrfShare_lt hr h).le
  · rw [rrfShare, if_neg h]
    exact rrfShare_nonneg k r a

theorem getD_rrfAdd (k : ℕ) (scores : Dict ℕ ℚ) (place : ℕ × ℕ) (doc : ℕ) :
    (rrfAdd k scores place).getD doc 0 =
      scores.getD doc 0 + if doc = place.1 then 1 / ((k : ℚ) + place.2 + 1) else 0 := by
  unfold rrfAdd Dict.getD
  rw [Dict.get?_set]
  split_ifs with h
  · rw [h]
    rfl
  · rw [add_zero]

/-- One pass of the inner loop, from the place `start`. -/
theorem getD_foldl_rrfAdd (k : ℕ) {r : List ℕ} (hr : r.Nodup) (start : ℕ) (scores : Dict ℕ ℚ)
    (doc : ℕ) :
    ((r.zipIdx start).foldl (rrfAdd k) scores).getD doc 0 =
      scores.getD doc 0 + if doc ∈ r then 1 / ((k : ℚ) + (start + r.idxOf doc : ℕ) + 1) else 0 := by
  induction r generalizing start scores with
  | nil => simp
  | cons d r ih =>
      obtain ⟨hd, hr⟩ := List.nodup_cons.1 hr
      rw [List.zipIdx_cons, List.foldl_cons, ih hr, getD_rrfAdd]
      by_cases heq : doc = d
      · subst heq
        simp [hd]
      · have hindex : (d :: r).idxOf doc = r.idxOf doc + 1 := List.idxOf_cons_ne _ (Ne.symm heq)
        simp only [heq, hindex, List.mem_cons, if_false, false_or, add_zero]
        rw [add_assoc start 1, add_comm 1]

/-- The fused scores of two rankings. -/
theorem getD_scores (k : ℕ) {semantic keyword : List ℕ} (hsemantic : semantic.Nodup)
    (hkeyword : keyword.Nodup) (doc : ℕ) :
    ([semantic, keyword].foldl (fun scores r => r.zipIdx.foldl (rrfAdd k) scores)
        (Dict.empty : Dict ℕ ℚ)).getD doc 0 =
      rrfShare k semantic doc + rrfShare k keyword doc := by
  have hempty : (Dict.empty : Dict ℕ ℚ).getD doc 0 = 0 := rfl
  rw [List.foldl_cons, List.foldl_cons, List.foldl_nil, getD_foldl_rrfAdd k hkeyword,
    getD_foldl_rrfAdd k hsemantic, hempty, zero_add, zero_add, zero_add]
  rfl

/-! ## What each stage keeps -/

/-- The cut is made of the whole fusion. -/
theorem rrfFuse_eq_upTo (rankings : List (List ℕ)) (k : ℕ) (top : ℤ) :
    rrfFuse rankings k top =
      if top = 0 then rrfFuse rankings k 0 else upTo top (rrfFuse rankings k 0) := by
  unfold rrfFuse
  rw [if_pos rfl]

/-- The fusion lists each document ranked. -/
theorem mem_rrfFuse_iff {rankings : List (List ℕ)} {k : ℕ} {doc : ℕ} :
    doc ∈ rrfFuse rankings k 0 ↔ ∃ r ∈ rankings, doc ∈ r := by
  rw [← mem_keys_scores k, ← (perm_fused _).mem_iff, rrfFuse, if_pos rfl]

/-- The higher score comes first. -/
theorem precedes_fused {scores : Dict ℕ ℚ} {a b : ℕ} (ha : a ∈ scores) (hb : b ∈ scores)
    (hscore : scores.getD b 0 < scores.getD a 0) :
    Precedes ((scores.entries.insertionSort fun x y => y.2 ≤ x.2).map Prod.fst) a b := by
  obtain ⟨va, hva⟩ := Option.isSome_iff_exists.1 (Dict.get?_isSome_iff.2 ha)
  obtain ⟨vb, hvb⟩ := Option.isSome_iff_exists.1 (Dict.get?_isSome_iff.2 hb)
  have hlt : vb < va := by simpa [Dict.getD, hva, hvb] using hscore
  have hsorted : (scores.entries.insertionSort fun x y => y.2 ≤ x.2).Pairwise
      fun x y => y.2 ≤ x.2 :=
    haveI : Std.Total fun x y : ℕ × ℚ => y.2 ≤ x.2 := ⟨fun x y => le_total y.2 x.2⟩
    haveI : IsTrans (ℕ × ℚ) fun x y => y.2 ≤ x.2 := ⟨fun _ _ _ h h' => h'.trans h⟩
    List.pairwise_insertionSort _ _
  have hmemA : (a, va) ∈ scores.entries.insertionSort fun x y => y.2 ≤ x.2 :=
    (List.mem_insertionSort _).2 (Dict.get?_eq_some_iff.1 hva)
  have hmemB : (b, vb) ∈ scores.entries.insertionSort fun x y => y.2 ≤ x.2 :=
    (List.mem_insertionSort _).2 (Dict.get?_eq_some_iff.1 hvb)
  have hne : (a, va) ≠ (b, vb) := fun heq => hlt.ne (congrArg Prod.snd heq).symm
  exact (Precedes.of_pairwise hsorted hmemA hmemB hne hlt.not_ge).map Prod.fst

/-- A document that leads in one ranking, and does not trail in the other, leads the
fusion. -/
theorem precedes_rrfFuse {k : ℕ} {semantic keyword : List ℕ} (hsemantic : semantic.Nodup)
    (hkeyword : keyword.Nodup) {a b : ℕ} (hab : Precedes semantic a b)
    (hother : Precedes keyword a b ∨ b ∉ keyword) :
    Precedes (rrfFuse [semantic, keyword] k 0) a b := by
  have hscored : ∀ doc ∈ semantic, doc ∈ [semantic, keyword].foldl
      (fun scores r => r.zipIdx.foldl (rrfAdd k) scores) (Dict.empty : Dict ℕ ℚ) :=
    fun doc hdoc => (mem_keys_scores k _ doc).2 ⟨semantic, List.mem_cons_self, hdoc⟩
  rw [rrfFuse, if_pos rfl]
  apply precedes_fused (hscored a hab.mem_left) (hscored b hab.mem_right)
  rw [getD_scores k hsemantic hkeyword, getD_scores k hsemantic hkeyword]
  exact add_lt_add_of_lt_of_le (rrfShare_lt hsemantic hab) (rrfShare_le hkeyword hother)

/-- The relevance of a document, by its place in the fusion. -/
theorem getD_relevance {docIds : List ℕ} (hnodup : docIds.Nodup) (f : ℕ → ℚ) {doc : ℕ}
    (hdoc : doc ∈ docIds) :
    (docIds.zipIdx.foldl (fun rel (place : ℕ × ℕ) => rel.set place.1 (f place.2))
        (Dict.empty : Dict ℕ ℚ)).getD doc 0 = f (docIds.idxOf doc) := by
  have hpairs : docIds.zipIdx.foldl (fun rel (place : ℕ × ℕ) => rel.set place.1 (f place.2))
      (Dict.empty : Dict ℕ ℚ) =
        Dict.ofPairs (docIds.zipIdx.map fun place => (place.1, f place.2)) := by
    rw [Dict.ofPairs, List.foldl_map]
  have hkeys : (docIds.zipIdx.map fun place => (place.1, f place.2)).map Prod.fst = docIds := by
    rw [List.map_map]
    exact List.zipIdx_map_fst 0 docIds
  have hplace : (doc, docIds.idxOf doc) ∈ docIds.zipIdx := by
    rw [List.mem_zipIdx_iff_getElem?]
    exact List.getElem?_idxOf hdoc
  have hmem := List.mem_map_of_mem (f := fun place : ℕ × ℕ => (place.1, f place.2)) hplace
  rw [hpairs, Dict.getD, Dict.get?_ofPairs_of_mem (hkeys.symm ▸ hnodup) hmem]
  rfl

/-- A document that leads, and whose deal is no worse, still leads. -/
theorem precedes_valueRerank {docIds : List ℕ} (hnodup : docIds.Nodup) {deal : List ℚ} {alpha : ℚ}
    (hzero : 0 ≤ alpha) (hone : alpha ≤ 1) {a b : ℕ} (hab : Precedes docIds a b)
    (hdeal : max 0 (deal.getD b 0) ≤ max 0 (deal.getD a 0)) :
    Precedes (valueRerank docIds deal alpha) a b := by
  have hindex : (docIds.idxOf a : ℚ) ≤ docIds.idxOf b :=
    Nat.cast_le.2 (hab.idxOf_lt hnodup).le
  have hrel : 1 - (docIds.idxOf b : ℚ) / (max 1 (docIds.length - 1) : ℕ) ≤
      1 - (docIds.idxOf a : ℚ) / (max 1 (docIds.length - 1) : ℕ) :=
    sub_le_sub_left (div_le_div_of_nonneg_right hindex (Nat.cast_nonneg _)) 1
  have hcombined : (1 - alpha) * (1 - (docIds.idxOf b : ℚ) / (max 1 (docIds.length - 1) : ℕ)) +
        alpha * max 0 (deal.getD b 0) ≤
      (1 - alpha) * (1 - (docIds.idxOf a : ℚ) / (max 1 (docIds.length - 1) : ℕ)) +
        alpha * max 0 (deal.getD a 0) :=
    add_le_add (mul_le_mul_of_nonneg_left hrel (sub_nonneg.2 hone))
      (mul_le_mul_of_nonneg_left hdeal hzero)
  rw [← getD_relevance hnodup (fun i => 1 - (i : ℚ) / (max 1 (docIds.length - 1) : ℕ)) hab.mem_left,
    ← getD_relevance hnodup (fun i => 1 - (i : ℚ) / (max 1 (docIds.length - 1) : ℕ)) hab.mem_right]
    at hcombined
  exact hab.insertionSort hcombined

/-! ## The search -/

/-- The places a search returns. -/
def returned (products : List Product) (semantic keyword : List ℕ) (deal : List ℚ) (k : ℤ)
    (alpha : ℚ) : List ℕ :=
  (searchRanked products semantic keyword deal k alpha).map fun result => result.1

/-- The places returned are the cut of the reordered fusion, where there is a product. -/
theorem returned_eq (products : List Product) (semantic keyword : List ℕ) (deal : List ℚ) (k : ℤ)
    (alpha : ℚ) :
    returned products semantic keyword deal k alpha =
      (upTo k (valueRerank (rrfFuse [semantic, keyword] 60 (max (k * 3) k)) deal alpha)).filter
        fun i => decide (i < products.length) := by
  unfold returned searchRanked
  dsimp only
  generalize upTo k _ = valued
  induction valued with
  | nil => rfl
  | cons i rest ih =>
      by_cases hi : i < products.length
      · simpa [hi] using ih
      · simpa [hi] using ih

/-- Hybrid search respects dominance: an item behind another in the ranking by meaning,
not ahead of it in the ranking by keywords, and no better a deal, is returned only after
it. The fusion itself lists every item of its rankings, once. -/
theorem searchRanked_dominance (products : List Product) {semantic keyword : List ℕ}
    (hsemantic : semantic.Perm (List.range products.length)) (hkeyword : keyword.Nodup)
    (deal : List ℚ) {k : ℤ} (hk : 1 ≤ k) {alpha : ℚ} (hzero : 0 ≤ alpha) (hone : alpha ≤ 1) :
    (∀ a b, Precedes semantic a b → (Precedes keyword a b ∨ b ∉ keyword) →
        max 0 (deal.getD b 0) ≤ max 0 (deal.getD a 0) →
        b ∈ returned products semantic keyword deal k alpha →
        Precedes (returned products semantic keyword deal k alpha) a b) ∧
      ∀ (rankings : List (List ℕ)) (rrfK : ℕ) (top : ℤ),
        (rrfFuse rankings rrfK 0).Nodup ∧
          (∀ doc, doc ∈ rrfFuse rankings rrfK 0 ↔ ∃ r ∈ rankings, doc ∈ r) ∧
          rrfFuse rankings rrfK top =
            if top = 0 then rrfFuse rankings rrfK 0 else upTo top (rrfFuse rankings rrfK 0) := by
  have hdominance : ∀ a b, Precedes semantic a b → (Precedes keyword a b ∨ b ∉ keyword) →
      max 0 (deal.getD b 0) ≤ max 0 (deal.getD a 0) →
      b ∈ returned products semantic keyword deal k alpha →
      Precedes (returned products semantic keyword deal k alpha) a b := by
    intro a b hab hother hdeal hb
    have hsemanticNodup : semantic.Nodup := hsemantic.nodup_iff.2 List.nodup_range
    have hplaceA : a < products.length :=
      List.mem_range.1 (hsemantic.subset hab.mem_left)
    rw [returned_eq] at hb ⊢
    obtain ⟨hvalued, hplaceB⟩ := List.mem_filter.1 hb
    have hreranked := (upTo_initial _ _).subset hvalued
    rw [(valueRerank_perm _ _ _).mem_iff] at hreranked
    -- The first cut keeps `b`, so it keeps `a` before it.
    have hcut : rrfFuse [semantic, keyword] 60 (max (k * 3) k) <+:
        rrfFuse [semantic, keyword] 60 0 := by
      rw [rrfFuse_eq_upTo, if_neg (by omega)]
      exact upTo_initial _ _
    have hhybrid := (precedes_rrfFuse hsemanticNodup hkeyword hab hother).of_initial hcut
      (nodup_rrfFuse _ _ _) hreranked
    have hordered := precedes_valueRerank (nodup_rrfFuse _ _ _) hzero hone hhybrid hdeal
    -- And so does the second.
    have hkept := hordered.of_initial (upTo_initial k _)
      ((valueRerank_perm _ _ _).nodup_iff.2 (nodup_rrfFuse _ _ _)) hvalued
    have hboth := List.Sublist.filter (fun i => decide (i < products.length)) hkept
    have hin : decide (b < products.length) = true := hplaceB
    simpa [Precedes, hplaceA, hin] using hboth
  exact ⟨hdominance, fun rankings rrfK top => ⟨nodup_rrfFuse _ _ _, fun _ => mem_rrfFuse_iff,
    rrfFuse_eq_upTo _ _ _⟩⟩

/-- Three headphones, of which a keyword finds two. -/
theorem searchRanked_dominance_three :
    Precedes (returned [headphones "a" 90, headphones "b" 95, headphones "c" 60] [1, 0, 2] [1, 2]
      [1 / 10, 1 / 20, 1 / 20] 2 (1 / 2)) 1 2 :=
  (@searchRanked_dominance [headphones "a" 90, headphones "b" 95, headphones "c" 60] [1, 0, 2]
    [1, 2] (by decide) (by decide) [1 / 10, 1 / 20, 1 / 20] 2 (by decide) (1 / 2) (by norm_num)
    (by norm_num)).1 1 2 (by decide) (.inl (by decide)) (by decide +kernel) (by decide +kernel)

end DealFinder.Worker
