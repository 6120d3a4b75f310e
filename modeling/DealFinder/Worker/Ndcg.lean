/-
# Normalised gain of a recommended list

`ndcg_at_k` adds up the discounts of the places among the first `k` that hold a relevant item, and
divides by what the best list would get. With any discount that is positive and decreases strictly
the score lies between zero and one, is one only for a list that begins with as many relevant items
as there can be, and rises when a relevant item moves ahead of an irrelevant one
(`scoresOrder_ndcgAtK`).
-/

import DealFinder.Math.Leading
import Mathlib.Algebra.BigOperators.Intervals
import Mathlib.Algebra.Order.Field.Basic
import Mathlib.Analysis.SpecialFunctions.Log.Base
import Mathlib.Data.List.GetD

namespace DealFinder.Worker

open DealFinder.Math Finset

universe u v

section Gain

variable {K : Type u} [Field K] [LinearOrder K] {α : Type v} [DecidableEq α]

/-- `_dcg`, where `discount n` stands for `1 / log2(n)`. -/
def dcg (discount : ℕ → K) (rels : List K) : K :=
  let discounts := (List.range' 2 rels.length).map discount
  (List.zipWith (· * ·) rels discounts).sum

/-- `gains`. -/
def gains (recommended : List α) (relevant : Finset α) (k : ℕ) : List K :=
  (recommended.take k).map fun r => if r ∈ relevant then 1 else 0

/-- `ideal`: all the relevant items that fit in front, padded to `k`. -/
def ideal (relevant : Finset α) (k : ℕ) : List K :=
  List.replicate (min relevant.card k) 1 ++ List.replicate (k - relevant.card) 0

/-- `ndcg_at_k`. -/
def ndcgAtK (discount : ℕ → K) (recommended : List α) (relevant : Finset α) (k : ℕ) : K :=
  let idcg := dcg discount (ideal relevant k)
  if 0 < idcg then dcg discount (gains recommended relevant k) / idcg else 0

/-- A discount of the places `2, 3, …` that a logarithm could give. -/
structure IsDiscount (discount : ℕ → K) : Prop where
  pos : ∀ n, 2 ≤ n → 0 < discount n
  anti : ∀ m n, 2 ≤ m → m < n → discount n < discount m

/-- What the score says of the order of a recommended list. -/
structure ScoresOrder (discount : ℕ → K) (recommended : List α) (relevant : Finset α)
    (k : ℕ) : Prop where
  nonneg : 0 ≤ ndcgAtK discount recommended relevant k
  le_one : ndcgAtK discount recommended relevant k ≤ 1
  eq_one_iff : ndcgAtK discount recommended relevant k = 1 ↔
    ∀ i < min relevant.card k, ∃ r ∈ relevant, recommended[i]? = some r
  swap : ∀ i j bad good, i < j → i < k → recommended[i]? = some bad → bad ∉ relevant →
    recommended[j]? = some good → good ∈ relevant →
      ndcgAtK discount recommended relevant k <
        ndcgAtK discount ((recommended.set i good).set j bad) relevant k

end Gain

/-! ## Gains as sums over places -/

section Sum

variable {K : Type u} [Field K] {α : Type v} {discount : ℕ → K}

theorem sum_zipWith_range' (discount : ℕ → K) (rels : List K) (start : ℕ) :
    (List.zipWith (· * ·) rels ((List.range' start rels.length).map discount)).sum =
      ∑ i ∈ range rels.length, rels.getD i 0 * discount (start + i) := by
  induction rels generalizing start with
  | nil => rfl
  | cons a rels ih =>
      rw [List.length_cons, List.range'_succ, List.map_cons, List.zipWith_cons_cons, List.sum_cons,
        ih (start + 1), sum_range_succ', add_comm]
      congr 1
      apply sum_congr rfl
      intro i _
      rw [List.getD_cons_succ, Nat.add_right_comm, Nat.add_assoc]

/-- Gains that are one at some places and zero elsewhere add up to the discounts of these places. -/
theorem dcg_eq_sum {rels : List K} {places : Finset ℕ}
    (hrels : ∀ i, rels.getD i 0 = if i ∈ places then 1 else 0) :
    dcg discount rels = ∑ i ∈ places, discount (2 + i) := by
  have hinside : ∀ i ∈ places, i ∈ range rels.length := by
    intro i hi
    by_contra hout
    have hzero := hrels i
    rw [if_pos hi, List.getD_eq_default _ _ (not_lt.1 (mt mem_range.2 hout))] at hzero
    exact zero_ne_one hzero
  calc dcg discount rels
      = ∑ i ∈ range rels.length, rels.getD i 0 * discount (2 + i) := sum_zipWith_range' _ _ 2
    _ = ∑ i ∈ range rels.length, if i ∈ places then discount (2 + i) else 0 := by
        apply sum_congr rfl
        intro i _
        rw [hrels, ite_mul, one_mul, zero_mul]
    _ = ∑ i ∈ (range rels.length).filter (· ∈ places), discount (2 + i) := (sum_filter ..).symm
    _ = ∑ i ∈ places, discount (2 + i) := by
        congr 1
        ext i
        rw [mem_filter]
        exact ⟨fun h => h.2, fun h => ⟨hinside i h, h⟩⟩

theorem dcg_ideal (relevant : Finset α) (k : ℕ) :
    dcg discount (ideal relevant k) = ∑ i ∈ range (min relevant.card k), discount (2 + i) := by
  apply dcg_eq_sum
  intro i
  rw [ideal, List.getD_eq_getElem?_getD, List.getElem?_append, List.length_replicate]
  simp only [mem_range]
  by_cases hi : i < min relevant.card k
  · rw [if_pos hi, if_pos hi, List.getElem?_replicate, if_pos hi]
    rfl
  · rw [if_neg hi, if_neg hi, List.getElem?_replicate]
    split_ifs <;> rfl

variable [DecidableEq α]

/-- The places among the first `k` that hold a relevant item. -/
def hits (recommended : List α) (relevant : Finset α) (k : ℕ) : Finset ℕ :=
  (range k).filter fun i => recommended[i]?.any fun r => r ∈ relevant

theorem mem_hits {recommended : List α} {relevant : Finset α} {k i : ℕ} :
    i ∈ hits recommended relevant k ↔ i < k ∧ ∃ r ∈ relevant, recommended[i]? = some r := by
  rw [hits, mem_filter, mem_range, Option.any_eq_true]
  simp only [decide_eq_true_eq, and_comm]

theorem dcg_gains (recommended : List α) (relevant : Finset α) (k : ℕ) :
    dcg discount (gains recommended relevant k) =
      ∑ i ∈ hits recommended relevant k, discount (2 + i) := by
  apply dcg_eq_sum
  intro i
  rw [gains, List.getD_eq_getElem?_getD, List.getElem?_map, List.getElem?_take]
  by_cases hi : i < k
  · rw [if_pos hi]
    cases hget : recommended[i]? with
    | none =>
        have hmiss : i ∉ hits recommended relevant k := by
          rw [mem_hits, hget]
          rintro ⟨-, r, -, hr⟩
          cases hr
        rw [if_neg hmiss]
        rfl
    | some r =>
        have hhit : i ∈ hits recommended relevant k ↔ r ∈ relevant := by
          rw [mem_hits, hget]
          constructor
          · rintro ⟨-, r', hr', heq⟩
            exact Option.some_inj.1 heq ▸ hr'
          · exact fun hr => ⟨hi, r, hr, rfl⟩
        simp only [Option.map_some, Option.getD_some, hhit]
  · rw [if_neg hi, if_neg fun h => hi (mem_hits.1 h).1]
    rfl

end Sum

/-! ## Hits -/

section Hits

variable {α : Type v} [DecidableEq α] {recommended : List α} {relevant : Finset α} {k : ℕ}

/-- No more hits than relevant items, as no item is recommended twice. -/
theorem card_hits_le (hnodup : recommended.Nodup) (relevant : Finset α) (k : ℕ) :
    (hits recommended relevant k).card ≤ min relevant.card k := by
  apply le_min
  · have hmaps : ∀ i ∈ hits recommended relevant k,
        recommended[i]? ∈ relevant.map Function.Embedding.some := by
      intro i hi
      obtain ⟨-, r, hr, hget⟩ := mem_hits.1 hi
      exact mem_map.2 ⟨r, hr, hget.symm⟩
    have hinj : Set.InjOn (fun i : ℕ => recommended[i]?) ↑(hits recommended relevant k) := by
      intro i hi j _ heq
      obtain ⟨-, r, -, hget⟩ := mem_hits.1 hi
      exact (List.getElem?_inj (List.getElem?_eq_some_iff.1 hget).1 hnodup).1 heq
    exact (card_le_card_of_injOn _ hmaps hinj).trans (card_map _).le
  · exact (card_filter_le _ _).trans (card_range k).le

/-- The hits lead when the list begins with as many relevant items as there can be. -/
theorem hits_eq_range_iff (hnodup : recommended.Nodup) :
    hits recommended relevant k = range (min relevant.card k) ↔
      ∀ i < min relevant.card k, ∃ r ∈ relevant, recommended[i]? = some r := by
  constructor
  · intro heq i hi
    have hhit : i ∈ hits recommended relevant k := heq ▸ mem_range.2 hi
    exact (mem_hits.1 hhit).2
  · intro hleads
    symm
    apply eq_of_subset_of_card_le
    · intro i hi
      have hlt := mem_range.1 hi
      exact mem_hits.2 ⟨hlt.trans_le (min_le_right _ _), hleads i hlt⟩
    · rw [card_range]
      exact card_hits_le hnodup relevant k

/-- Moving a relevant item ahead of an irrelevant one moves a hit, or adds one. -/
theorem hits_swap {i j : ℕ} {bad good : α} (hij : i < j) (hik : i < k) (hbad : bad ∉ relevant)
    (hj : recommended[j]? = some good) (hgood : good ∈ relevant) :
    hits ((recommended.set i good).set j bad) relevant k =
      insert i ((hits recommended relevant k).erase j) := by
  have hlength : j < recommended.length := (List.getElem?_eq_some_iff.1 hj).1
  ext n
  rw [mem_insert, mem_erase, mem_hits, mem_hits]
  rcases eq_or_ne n j with rfl | hnj
  · have hlast : ((recommended.set i good).set n bad)[n]? = some bad :=
      List.getElem?_set_self (by rwa [List.length_set])
    rw [hlast]
    constructor
    · rintro ⟨-, r, hr, heq⟩
      exact absurd (Option.some_inj.1 heq ▸ hr) hbad
    · rintro (heq | ⟨hne, -⟩)
      · exact absurd heq hij.ne'
      · exact absurd rfl hne
  · rw [List.getElem?_set_ne hnj.symm]
    rcases eq_or_ne n i with rfl | hni
    · rw [List.getElem?_set_self (hij.trans hlength)]
      exact ⟨fun _ => Or.inl rfl, fun _ => ⟨hik, good, hgood, rfl⟩⟩
    · rw [List.getElem?_set_ne hni.symm]
      exact ⟨fun h => Or.inr ⟨hnj, h⟩, fun h => (h.resolve_left hni).2⟩

end Hits

/-! ## The score -/

section Score

variable {K : Type u} [Field K] [LinearOrder K] {α : Type v} {discount : ℕ → K}
variable {recommended : List α} {relevant : Finset α} {k : ℕ}

theorem IsDiscount.strictAnti (h : IsDiscount discount) : StrictAnti fun i => discount (2 + i) :=
  fun m n hlt => h.anti (2 + m) (2 + n) (Nat.le_add_right 2 m) (Nat.add_lt_add_left hlt 2)

variable [IsStrictOrderedRing K]

theorem IsDiscount.sum_nonneg (h : IsDiscount discount) (places : Finset ℕ) :
    0 ≤ ∑ i ∈ places, discount (2 + i) :=
  Finset.sum_nonneg fun i _ => (h.pos (2 + i) (Nat.le_add_right 2 i)).le

/-- The best list gets something. -/
theorem IsDiscount.best_pos (h : IsDiscount discount) (hrelevant : relevant.Nonempty)
    (hk : 1 ≤ k) : 0 < ∑ i ∈ range (min relevant.card k), discount (2 + i) := by
  apply sum_pos
  · exact fun i _ => h.pos (2 + i) (Nat.le_add_right 2 i)
  · rw [nonempty_range_iff]
    have hcard := card_pos.2 hrelevant
    omega

variable [DecidableEq α]

theorem ndcgAtK_eq (h : IsDiscount discount) (hrelevant : relevant.Nonempty) (hk : 1 ≤ k)
    (recommended : List α) : ndcgAtK discount recommended relevant k =
      (∑ i ∈ hits recommended relevant k, discount (2 + i)) /
        ∑ i ∈ range (min relevant.card k), discount (2 + i) := by
  rw [ndcgAtK, dcg_ideal, dcg_gains]
  exact if_pos (h.best_pos hrelevant hk)

/-- The hits weigh at most what the best list would get, and as much only when they lead. -/
theorem sum_hits_le (h : IsDiscount discount) (hnodup : recommended.Nodup) :
    ∑ i ∈ hits recommended relevant k, discount (2 + i) ≤
      ∑ i ∈ range (min relevant.card k), discount (2 + i) := by
  calc ∑ i ∈ hits recommended relevant k, discount (2 + i)
      ≤ ∑ i ∈ range (hits recommended relevant k).card, discount (2 + i) :=
        sum_le_sum_range_card h.strictAnti.antitone _
    _ ≤ ∑ i ∈ range (min relevant.card k), discount (2 + i) :=
        sum_le_sum_of_subset_of_nonneg (range_subset_range.2 (card_hits_le hnodup relevant k))
          fun i _ _ => (h.pos (2 + i) (Nat.le_add_right 2 i)).le

theorem hits_eq_range_of_sum (h : IsDiscount discount) (hnodup : recommended.Nodup)
    (heq : ∑ i ∈ hits recommended relevant k, discount (2 + i) =
      ∑ i ∈ range (min relevant.card k), discount (2 + i)) :
    hits recommended relevant k = range (min relevant.card k) := by
  have hcard : (hits recommended relevant k).card = min relevant.card k := by
    apply le_antisymm (card_hits_le hnodup relevant k)
    by_contra hfewer
    have hlt := not_le.1 hfewer
    have hmore : ∑ i ∈ range (hits recommended relevant k).card, discount (2 + i) <
        ∑ i ∈ range (min relevant.card k), discount (2 + i) :=
      sum_lt_sum_of_subset (range_subset_range.2 hlt.le) (mem_range.2 hlt) notMem_range_self
        (h.pos _ (Nat.le_add_right 2 _)) fun i _ _ => (h.pos (2 + i) (Nat.le_add_right 2 i)).le
    exact absurd heq ((sum_le_sum_range_card h.strictAnti.antitone _).trans_lt hmore).ne
  by_contra hne
  rw [← hcard] at heq hne
  exact absurd heq (sum_lt_sum_range_card h.strictAnti hne).ne

/-- A hit gained at an earlier place outweighs one lost at a later place. -/
theorem sum_hits_lt (h : IsDiscount discount) {i j : ℕ} {bad : α} (hij : i < j)
    (hi : recommended[i]? = some bad) (hbad : bad ∉ relevant) :
    ∑ n ∈ hits recommended relevant k, discount (2 + n) <
      ∑ n ∈ insert i ((hits recommended relevant k).erase j), discount (2 + n) := by
  have hmiss : i ∉ hits recommended relevant k := by
    rw [mem_hits, hi]
    rintro ⟨-, r, hr, heq⟩
    exact hbad (Option.some_inj.1 heq ▸ hr)
  rw [sum_insert fun hmem => hmiss (mem_of_mem_erase hmem)]
  by_cases hj : j ∈ hits recommended relevant k
  · rw [← add_sum_erase _ _ hj]
    exact add_lt_add_left (h.strictAnti hij) _
  · rw [erase_eq_of_notMem hj]
    exact lt_add_of_pos_left _ (h.pos (2 + i) (Nat.le_add_right 2 i))

/-- **NDCG is a normalised, monotone score** of a list that recommends no item twice. -/
theorem scoresOrder_ndcgAtK (h : IsDiscount discount) (hnodup : recommended.Nodup)
    (hrelevant : relevant.Nonempty) (hk : 1 ≤ k) :
    ScoresOrder discount recommended relevant k where
  nonneg := by
    rw [ndcgAtK_eq h hrelevant hk]
    exact div_nonneg (h.sum_nonneg _) (h.sum_nonneg _)
  le_one := by
    rw [ndcgAtK_eq h hrelevant hk, div_le_one (h.best_pos hrelevant hk)]
    exact sum_hits_le h hnodup
  eq_one_iff := by
    rw [ndcgAtK_eq h hrelevant hk, div_eq_one_iff_eq (h.best_pos hrelevant hk).ne',
      ← hits_eq_range_iff hnodup]
    exact ⟨hits_eq_range_of_sum h hnodup, fun heq => heq ▸ rfl⟩
  swap := by
    intro i j bad good hij hik hi hbad hj hgood
    rw [ndcgAtK_eq h hrelevant hk, ndcgAtK_eq h hrelevant hk, hits_swap hij hik hbad hj hgood]
    apply div_lt_div_of_pos_right _ (h.best_pos hrelevant hk)
    exact sum_hits_lt h hij hi hbad

end Score

/-! ## The discount of the code -/

/-- `1.0 / np.log2(n)`. -/
noncomputable def log2Discount (n : ℕ) : ℝ := 1 / Real.logb (2 : ℕ) n

theorem isDiscount_log2Discount : IsDiscount log2Discount where
  pos := by
    intro n hn
    have htwo : (1 : ℝ) < n := Nat.one_lt_cast.2 hn
    exact one_div_pos.2 (Real.logb_pos (Nat.one_lt_cast.2 one_lt_two) htwo)
  anti := by
    intro m n hm hlt
    have hone : (1 : ℝ) < m := Nat.one_lt_cast.2 hm
    have hmore : (m : ℝ) < n := Nat.cast_lt.2 hlt
    have hbase : (1 : ℝ) < (2 : ℕ) := Nat.one_lt_cast.2 one_lt_two
    exact one_div_lt_one_div_of_lt (Real.logb_pos hbase hone)
      (Real.logb_lt_logb hbase (one_pos.trans hone) hmore)

/-- Of two items the second is relevant. -/
theorem scoresOrder_second : ScoresOrder log2Discount ["a", "b"] {"b"} 2 :=
  scoresOrder_ndcgAtK isDiscount_log2Discount (by decide) (singleton_nonempty "b") one_le_two

end DealFinder.Worker
