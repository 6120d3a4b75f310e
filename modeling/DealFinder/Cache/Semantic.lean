/-
# The semantic cache

`SemanticCache` keeps answers by the vector of their query, and gives back the answer of the
nearest vector if that is near enough. `measure_cache_hit_rate` runs a batch of queries through an
empty cache, and puts each that it misses.

The vectors that the cache then holds are a greedy net of the batch (`Math.net`), and a hit is
served by the nearest of them (`batch_measured`). The threshold decides which queries are one: of
queries that repeat none is missed twice.

The cosine of two vectors is a parameter, with numbers as values (no `nan`).
-/

import DealFinder.Math.Net
import Mathlib.Data.List.MinMax

namespace DealFinder.Cache

open DealFinder.Math

universe u v w

variable {V : Type u} {A : Type v} {S : Type w} [LinearOrder S]

/-- `SemanticCache`: `_vecs` and `_vals`, which grow together. -/
structure SemanticCache (V : Type u) (A : Type v) (S : Type w) where
  threshold : S
  entries : List (V × A)

namespace SemanticCache

/-- `SemanticCache(threshold)`. -/
def new (threshold : S) : SemanticCache V A S := ⟨threshold, []⟩

def put (cache : SemanticCache V A S) (vec : V) (value : A) : SemanticCache V A S :=
  { cache with entries := cache.entries ++ [(vec, value)] }

variable (sim : V → V → S)

/-- `argmax` is the first of the greatest, and `none` stands for an empty cache. -/
def get (cache : SemanticCache V A S) (vec : V) : Option A :=
  match cache.entries.argmax fun entry => sim entry.1 vec with
  | none => none
  | some best => if cache.threshold ≤ sim best.1 vec then some best.2 else none

end SemanticCache

/-- The loop of `measure_cache_hit_rate`: its hits, and its cache. -/
structure Measured (V : Type u) (A : Type v) (S : Type w) where
  hits : ℕ
  cache : SemanticCache V A S

section Measure

variable (sim : V → V → S)

def Measured.step (m : Measured V A S) (query : V × A) : Measured V A S :=
  if (m.cache.get sim query.1).isSome then { m with hits := m.hits + 1 }
  else { m with cache := m.cache.put query.1 query.2 }

/-- The batch after its queries. -/
def measure (threshold : S) (batch : List (V × A)) : Measured V A S :=
  batch.foldl (Measured.step sim) ⟨0, .new threshold⟩

/-- Is a query near enough to a vector of the cache? -/
def nearEnough (threshold : S) (kept query : V) : Bool := decide (threshold ≤ sim kept query)

end Measure

variable {sim : V → V → S} {cache : SemanticCache V A S} {vec : V} {value : A}

/-- A hit is the value of a nearest vector, and that one is near enough. -/
theorem served_of_get (h : cache.get sim vec = some value) : ∃ kept,
    (kept, value) ∈ cache.entries ∧ cache.threshold ≤ sim kept vec ∧
      ∀ entry ∈ cache.entries, sim entry.1 vec ≤ sim kept vec := by
  rw [SemanticCache.get] at h
  cases hbest : cache.entries.argmax fun entry => sim entry.1 vec with
  | none =>
      rw [hbest] at h
      cases h
  | some best =>
      rw [hbest] at h
      obtain ⟨hle, hvalue⟩ := Option.ite_none_right_eq_some.1 h
      cases hvalue
      exact ⟨best.1, List.argmax_mem hbest, hle, fun entry hmem => List.le_of_mem_argmax hmem hbest⟩

/-- A query hits when some vector is near enough. -/
theorem get_isSome_iff : (cache.get sim vec).isSome ↔
    ∃ entry ∈ cache.entries, nearEnough sim cache.threshold entry.1 vec = true := by
  constructor
  · intro h
    obtain ⟨value, hvalue⟩ := Option.isSome_iff_exists.1 h
    obtain ⟨kept, hmem, hle, -⟩ := served_of_get hvalue
    exact ⟨(kept, value), hmem, decide_eq_true hle⟩
  · rintro ⟨entry, hmem, hnear⟩
    rw [SemanticCache.get]
    cases hbest : cache.entries.argmax fun entry => sim entry.1 vec with
    | none =>
        rw [List.argmax_eq_none.1 hbest] at hmem
        exact absurd hmem List.not_mem_nil
    | some best =>
        have hle : cache.threshold ≤ sim best.1 vec :=
          (of_decide_eq_true hnear).trans (List.le_of_mem_argmax hmem hbest)
        change (if cache.threshold ≤ sim best.1 vec then some best.2 else none).isSome = true
        rw [if_pos hle]
        rfl

section Batch

variable {threshold : S} {past batch : List (V × A)} {query : V × A}

theorem measure_concat (threshold : S) (past : List (V × A)) (query : V × A) :
    measure sim threshold (past ++ [query]) = (measure sim threshold past).step sim query :=
  List.foldl_concat ..

theorem threshold_measure (batch : List (V × A)) :
    (measure sim threshold batch).cache.threshold = threshold := by
  induction batch using List.reverseRecOn with
  | nil => rfl
  | append_singleton past query ih =>
      rw [measure_concat, Measured.step]
      split_ifs
      · exact ih
      · exact ih

/-- The vectors of the cache are the net of the queries. -/
theorem entries_measure (batch : List (V × A)) :
    (measure sim threshold batch).cache.entries.map Prod.fst =
      net (nearEnough sim threshold) (batch.map Prod.fst) := by
  induction batch using List.reverseRecOn with
  | nil => rfl
  | append_singleton past query ih =>
      rw [measure_concat, Measured.step, List.map_append, List.map_singleton, net_concat, ← ih]
      split_ifs with hhit
      · obtain ⟨entry, hmem, hnear⟩ := get_isSome_iff.1 hhit
        rw [threshold_measure] at hnear
        exact (keepFar_of_near (List.mem_map_of_mem hmem) hnear).symm
      · refine (List.map_append).trans (keepFar_of_far fun kept hkept => ?_).symm
        obtain ⟨entry, hmem, rfl⟩ := List.mem_map.1 hkept
        refine Bool.eq_false_iff.2 fun hnear => hhit (get_isSome_iff.2 ⟨entry, hmem, ?_⟩)
        rwa [threshold_measure]

/-- A query is a hit, or it is put. -/
theorem hits_measure (batch : List (V × A)) :
    (measure sim threshold batch).hits + (measure sim threshold batch).cache.entries.length =
      batch.length := by
  induction batch using List.reverseRecOn with
  | nil => rfl
  | append_singleton past query ih =>
      rw [measure_concat, Measured.step, List.length_append, List.length_singleton, ← ih]
      split_ifs
      · exact Nat.add_right_comm _ _ _
      · rw [SemanticCache.put, List.length_append, List.length_singleton]
        exact (Nat.add_assoc _ _ _).symm

theorem sublist_measure (batch : List (V × A)) :
    (measure sim threshold batch).cache.entries.Sublist batch := by
  induction batch using List.reverseRecOn with
  | nil => exact List.Sublist.refl _
  | append_singleton past query ih =>
      rw [measure_concat, Measured.step]
      split_ifs
      · exact ih.trans (List.sublist_append_left past [query])
      · exact ih.append (List.Sublist.refl _)

end Batch

/-- What a batch leaves, and what its hits are. -/
structure BatchMeasured [DecidableEq V] (sim : V → V → S) (threshold : S)
    (batch : List (V × A)) : Prop where
  counted : (measure sim threshold batch).hits +
    (measure sim threshold batch).cache.entries.length = batch.length
  apart : (measure sim threshold batch).cache.entries.Pairwise fun kept entry =>
    sim kept.1 entry.1 < threshold
  covers : ∀ query ∈ batch,
    query.1 ∈ (measure sim threshold batch).cache.entries.map Prod.fst ∨
    ∃ entry ∈ (measure sim threshold batch).cache.entries, threshold ≤ sim entry.1 query.1
  served : ∀ past query rest value, batch = past ++ query :: rest →
    (measure sim threshold past).cache.get sim query.1 = some value →
      ∃ kept, (kept, value) ∈ (measure sim threshold past).cache.entries ∧
        (kept, value) ∈ past ∧ threshold ≤ sim kept query.1 ∧
        ∀ entry ∈ (measure sim threshold past).cache.entries, sim entry.1 query.1 ≤ sim kept query.1
  repeats : (∀ query ∈ batch, threshold ≤ sim query.1 query.1) →
    (∀ past query rest, batch = past ++ query :: rest → query.1 ∈ past.map Prod.fst →
      ((measure sim threshold past).cache.get sim query.1).isSome) ∧
    batch.length ≤ (measure sim threshold batch).hits + (batch.map Prod.fst).dedup.length

/-- **The measured batch**, for every threshold: its cache holds queries that are apart and cover
the batch, hits and entries add up to it, a hit is served by the nearest query that is held, and
only different queries are missed. -/
theorem batch_measured [DecidableEq V] (sim : V → V → S) (threshold : S) (batch : List (V × A)) :
    BatchMeasured sim threshold batch := by
  refine ⟨hits_measure batch, ?_, fun query hmem => ?_, ?_, fun hself => ⟨?_, ?_⟩⟩
  · have hpacked : (net (nearEnough sim threshold) (batch.map Prod.fst)).Pairwise
        fun kept vec => nearEnough sim threshold kept vec = false := packed_net _
    rw [← entries_measure, List.pairwise_map] at hpacked
    exact hpacked.imp fun hfar => not_le.1 (of_decide_eq_false hfar)
  · have hcovered : query.1 ∈ net (nearEnough sim threshold) (batch.map Prod.fst) ∨
        ∃ kept ∈ net (nearEnough sim threshold) (batch.map Prod.fst),
          nearEnough sim threshold kept query.1 = true := covered_net (List.mem_map_of_mem hmem)
    rw [← entries_measure] at hcovered
    rcases hcovered with hkept | ⟨kept, hkept, hnear⟩
    · exact .inl hkept
    · obtain ⟨entry, hentry, rfl⟩ := List.mem_map.1 hkept
      exact .inr ⟨entry, hentry, of_decide_eq_true hnear⟩
  · rintro past query rest value rfl hget
    obtain ⟨kept, hkept, hle, hbest⟩ := served_of_get hget
    rw [threshold_measure] at hle
    exact ⟨kept, hkept, (sublist_measure past).subset hkept, hle, hbest⟩
  · rintro past query rest rfl hmem
    have hquery := hself query (List.mem_append_right _ List.mem_cons_self)
    have hself : nearEnough sim threshold query.1 query.1 = true := decide_eq_true hquery
    obtain ⟨kept, hkept, hnear⟩ := near_net_of_mem hself hmem
    rw [← entries_measure] at hkept
    obtain ⟨entry, hentry, rfl⟩ := List.mem_map.1 hkept
    refine get_isSome_iff.2 ⟨entry, hentry, ?_⟩
    rwa [threshold_measure]
  · have hvectors : ∀ vec ∈ batch.map Prod.fst, nearEnough sim threshold vec vec = true := by
      intro vec hvec
      obtain ⟨query, hquery, rfl⟩ := List.mem_map.1 hvec
      exact decide_eq_true (hself query hquery)
    have hnet := length_net_le hvectors
    rw [← entries_measure, List.length_map] at hnet
    have hcount : (measure sim threshold batch).hits +
      (measure sim threshold batch).cache.entries.length = batch.length := hits_measure batch
    omega

end DealFinder.Cache
