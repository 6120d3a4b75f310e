/-
# Keyword ranking

`BM25` scores each document by the words it shares with the query. Every division of the code is
one that may raise, and none does: an average length of zero is met only by a document without
words, which shares none. The index is over any ordered field with a logarithm that may raise; over
the reals a shared word always counts, so a search finds exactly the documents that share one
(`bm25_ranksMatching`). Over the rationals it is the keyword half of the pipeline
(`search_eq_bm25Search`).
-/

import DealFinder.Math.Grouping
import DealFinder.Math.Traverse
import DealFinder.Worker.Retrieval
import Mathlib.Algebra.Order.Field.Basic
import Mathlib.Analysis.SpecialFunctions.Log.Basic

namespace DealFinder.Worker

open DealFinder.Math DealFinder.Features

/-! ## The index -/

section Index

variable {K : Type} [Field K] [LinearOrder K] (unicode : Unicode) (log : K → Option K)

/-- `x / y`. Division by zero raises. -/
def divide (x y : K) : Option K := if y = 0 then none else some (x / y)

/-- `BM25`. -/
structure BM25 (K : Type) where
  docs : List (List (List Char))
  k1 : K
  b : K
  avgdl : K
  idf : Dict (List Char) K

/-- `Counter.update`. -/
def tally (df : Dict (List Char) ℕ) (words : List (List Char)) : Dict (List Char) ℕ :=
  words.foldl (fun df w => df.set w (df.getD w 0 + 1)) df

/-- `df`: how many documents have each word. A document's set of words is visited in some order. -/
def documentFrequency (docs : List (List (List Char))) : Dict (List Char) ℕ :=
  docs.foldl (fun df d => tally df d.dedup) .empty

/-- The value of `self.idf` for a word that `n` of `N` documents have. -/
def idfValue (N n : ℕ) : Option K := do
  let odds ← divide ((N : K) - n + 1 / 2) (n + 1 / 2)
  log (1 + odds)

/-- `BM25.__init__`. -/
def BM25.new (texts : List String) (k1 b : K) : Option (BM25 K) := do
  let docs := texts.map (tok unicode)
  let avgdl ← divide ((docs.map List.length).sum : K) (max 1 docs.length : ℕ)
  let idf ← (documentFrequency docs).entries.mapM fun entry =>
    (idfValue log docs.length entry.2).map fun value => (entry.1, value)
  some ⟨docs, k1, b, avgdl, .ofPairs idf⟩

namespace BM25

/-- What a word that the document has adds to its score. -/
def addend (bm : BM25 K) (d : List (List Char)) (w : List Char) : Option K := do
  let f : K := d.count w
  let relative ← divide (bm.b * d.length) bm.avgdl
  divide (bm.idf.getD w 0 * (f * (bm.k1 + 1))) (f + bm.k1 * (1 - bm.b + relative))

/-- The score of one document: the loop over the words of the query. -/
def score (bm : BM25 K) (query d : List (List Char)) : Option K :=
  query.foldlM (fun s w => if w ∉ d then some s else (bm.addend d w).map fun a => s + a) 0

/-- `BM25.search`. -/
def search (bm : BM25 K) (query : String) (k : ℤ) : Option (List (ℕ × K)) := do
  let scored ← bm.docs.zipIdx.mapM fun entry =>
    (bm.score (tok unicode query) entry.1).map fun s => (entry.2, s)
  let sorted := scored.insertionSort fun x y => -x.2 ≤ -y.2
  some ((upTo k sorted).filter fun x => 0 < x.2)

end BM25

end Index

/-! ## Counting documents -/

theorem get?_tally {words : List (List Char)} (hnodup : words.Nodup) (df : Dict (List Char) ℕ)
    (w : List Char) :
    (tally df words).get? w = if w ∈ words then some (df.getD w 0 + 1) else df.get? w := by
  induction words generalizing df with
  | nil => rfl
  | cons word words ih =>
      obtain ⟨hword, hwords⟩ := List.nodup_cons.1 hnodup
      have hstep : tally df (word :: words) = tally (df.set word (df.getD word 0 + 1)) words := rfl
      rw [hstep, ih hwords]
      by_cases heq : w = word
      · subst heq
        rw [if_neg hword, if_pos List.mem_cons_self, Dict.get?_set_self]
      · have hmem : w ∈ word :: words ↔ w ∈ words := by simp [heq]
        simp only [hmem, Dict.getD, Dict.get?_set_of_ne _ _ heq]

/-- A word is counted once for each document that has it. -/
theorem get?_documentFrequency (docs : List (List (List Char))) (w : List Char) :
    (documentFrequency docs).get? w =
      if docs.countP (fun d => decide (w ∈ d)) = 0 then none
      else some (docs.countP fun d => decide (w ∈ d)) := by
  induction docs using List.reverseRecOn with
  | nil => rfl
  | append_singleton docs d ih =>
      have hstep : documentFrequency (docs ++ [d]) = tally (documentFrequency docs) d.dedup :=
        List.foldl_concat ..
      rw [hstep, get?_tally (List.nodup_dedup d), List.countP_append, List.countP_singleton,
        Dict.getD, ih]
      by_cases hmem : w ∈ d
      · rw [if_pos (List.mem_dedup.2 hmem), decide_eq_true hmem, if_pos rfl,
          if_neg (Nat.succ_ne_zero _)]
        split_ifs with hzero
        · rw [hzero]
          rfl
        · rfl
      · rw [if_neg (mt List.mem_dedup.1 hmem), decide_eq_false hmem, if_neg Bool.false_ne_true,
          Nat.add_zero]

/-! ## What an index holds -/

/-- The dictionary that a comprehension over another one builds. -/
theorem get?_ofPairs_of_mapM {κ ν μ : Type} [DecidableEq κ] {df : Dict κ ν} {f : ν → Option μ}
    {idf : List (κ × μ)}
    (hidf : (df.entries.mapM fun entry => (f entry.2).map fun value => (entry.1, value)) = some idf)
    (w : κ) : (Dict.ofPairs idf).get? w = (df.get? w).bind f := by
  have hkeys : idf.map Prod.fst = df.entries.map Prod.fst := by
    apply map_eq_of_mapM _ hidf
    intro entry pair hpair
    obtain ⟨value, -, rfl⟩ := Option.map_eq_some_iff.1 hpair
    rfl
  cases hget : df.get? w with
  | none =>
      rw [Option.bind_none, Dict.get?_eq_none_iff, Dict.mem_ofPairs]
      rintro ⟨value, hmem⟩
      have hkey : w ∈ df.entries.map Prod.fst := hkeys ▸ List.mem_map_of_mem hmem
      exact Dict.get?_eq_none_iff.1 hget hkey
  | some n =>
      obtain ⟨pair, hpair, hread⟩ := read_of_mapM hidf (Dict.get?_eq_some_iff.1 hget)
      obtain ⟨value, hvalue, rfl⟩ := Option.map_eq_some_iff.1 hread
      have hnodup : (idf.map Prod.fst).Nodup := hkeys ▸ df.nodup_keys
      rw [Dict.get?_ofPairs_of_mem hnodup hpair, Option.bind_some, hvalue]

section Field

variable {K : Type} [Field K] [LinearOrder K] {unicode : Unicode} {log : K → Option K}

/-- `avgdl`. -/
def averageLength (docs : List (List (List Char))) : K :=
  ((docs.map List.length).sum : K) / (max 1 docs.length : ℕ)

/-- The index of some documents, with parameters that make sense. -/
structure Indexes (log : K → Option K) (k1 b : K) (docs : List (List (List Char)))
    (bm : BM25 K) : Prop where
  k1_nonneg : 0 ≤ k1
  b_nonneg : 0 ≤ b
  b_le_one : b ≤ 1
  docs_eq : bm.docs = docs
  k1_eq : bm.k1 = k1
  b_eq : bm.b = b
  avgdl_eq : bm.avgdl = averageLength docs
  idf_eq : ∀ w, bm.idf.get? w =
    ((documentFrequency docs).get? w).bind fun n => idfValue log docs.length n

theorem divide_of_ne {x y : K} (h : y ≠ 0) : divide x y = some (x / y) := if_neg h

theorem idfValue_eq [IsStrictOrderedRing K] (log : K → Option K) (N n : ℕ) :
    idfValue log N n = log (1 + ((N : K) - n + 1 / 2) / (n + 1 / 2)) := by
  have hpos : (0 : K) < n + 1 / 2 := by positivity
  rw [idfValue, divide_of_ne hpos.ne']
  rfl

/-- The index is built when the logarithms can be taken. -/
theorem exists_new [IsStrictOrderedRing K] (texts : List String) (k1 b : K) (hk1 : 0 ≤ k1)
    (hb : 0 ≤ b) (hb1 : b ≤ 1)
    (hlog : ∀ n, 1 ≤ n → n ≤ texts.length → ∃ value, idfValue log texts.length n = some value) :
    ∃ bm, BM25.new unicode log texts k1 b = some bm ∧
      Indexes log k1 b (texts.map (tok unicode)) bm := by
  have hread : ∀ entry ∈ (documentFrequency (texts.map (tok unicode))).entries,
      ∃ pair, (idfValue log (texts.map (tok unicode)).length entry.2).map
        (fun value => (entry.1, value)) = some pair := by
    intro entry hmem
    have hget := get?_documentFrequency (texts.map (tok unicode)) entry.1
    rw [Dict.get?_eq_some_iff.2 hmem] at hget
    split_ifs at hget with hzero
    have hcount := Option.some_inj.1 hget
    have hle := List.countP_le_length (p := fun d => decide (entry.1 ∈ d))
      (l := texts.map (tok unicode))
    rw [List.length_map] at hle ⊢
    obtain ⟨value, hvalue⟩ := hlog entry.2 (by omega) (by omega)
    exact ⟨(entry.1, value), by rw [hvalue]; rfl⟩
  obtain ⟨idf, hidf⟩ := exists_mapM hread
  have hpos : ((max 1 (texts.map (tok unicode)).length : ℕ) : K) ≠ 0 := by
    rw [Nat.cast_ne_zero]
    omega
  refine ⟨⟨texts.map (tok unicode), k1, b, averageLength _, .ofPairs idf⟩, ?_, hk1, hb, hb1,
    rfl, rfl, rfl, rfl, get?_ofPairs_of_mapM hidf⟩
  simp only [BM25.new, divide_of_ne hpos, hidf, Option.bind_eq_bind, Option.bind_some]
  rfl

variable {k1 b : K} {docs : List (List (List Char))} {bm : BM25 K} {d : List (List Char)}
variable {w : List Char}

/-- Documents with a word have a positive average length. -/
theorem averageLength_pos [IsStrictOrderedRing K] (hd : d ∈ docs) (hw : w ∈ d) :
    0 < (averageLength docs : K) := by
  have hlength : d.length ≤ (docs.map List.length).sum :=
    List.le_sum_of_mem (List.mem_map_of_mem hd)
  have hword : 0 < d.length := List.length_pos_of_mem hw
  apply div_pos
  · rw [Nat.cast_pos]
    omega
  · rw [Nat.cast_pos]
    omega

/-- What a shared word adds. -/
def BM25.points (bm : BM25 K) (d : List (List Char)) (w : List Char) : K :=
  bm.idf.getD w 0 * (d.count w * (bm.k1 + 1)) /
    (d.count w + bm.k1 * (1 - bm.b + bm.b * d.length / bm.avgdl))

/-- What a document scores. -/
def BM25.total (bm : BM25 K) (query d : List (List Char)) : K :=
  ((query.filter fun w => w ∈ d).map (bm.points d)).sum

/-- The denominator of a shared word is positive. -/
theorem denominator_pos [IsStrictOrderedRing K] (hbm : Indexes log k1 b docs bm) (hd : d ∈ docs)
    (hw : w ∈ d) :
    0 < d.count w + bm.k1 * (1 - bm.b + bm.b * d.length / bm.avgdl) := by
  have hcount : (0 : K) < d.count w := Nat.cast_pos.2 (List.count_pos_iff.2 hw)
  have hlength : 0 ≤ b * d.length / averageLength docs :=
    div_nonneg (mul_nonneg hbm.b_nonneg (Nat.cast_nonneg _)) (averageLength_pos hd hw).le
  rw [hbm.k1_eq, hbm.b_eq, hbm.avgdl_eq]
  exact add_pos_of_pos_of_nonneg hcount
    (mul_nonneg hbm.k1_nonneg (add_nonneg (sub_nonneg.2 hbm.b_le_one) hlength))

/-- No division of a shared word is by zero. -/
theorem addend_eq [IsStrictOrderedRing K] (hbm : Indexes log k1 b docs bm) (hd : d ∈ docs)
    (hw : w ∈ d) : bm.addend d w = some (bm.points d w) := by
  have haverage : bm.avgdl ≠ 0 := by
    rw [hbm.avgdl_eq]
    exact (averageLength_pos hd hw).ne'
  have hdenominator := (denominator_pos hbm hd hw).ne'
  rw [BM25.addend, divide_of_ne haverage]
  exact divide_of_ne hdenominator

theorem score_eq [IsStrictOrderedRing K] (hbm : Indexes log k1 b docs bm) (hd : d ∈ docs)
    (query : List (List Char)) : bm.score query d = some (bm.total query d) := by
  have hloop : ∀ s, query.foldlM
      (fun s w => if w ∉ d then some s else (bm.addend d w).map fun a => s + a) s =
        some (s + bm.total query d) := by
    induction query with
    | nil =>
        intro s
        rw [List.foldlM_nil, BM25.total, List.filter_nil, List.map_nil, List.sum_nil, add_zero]
        rfl
    | cons w query ih =>
        intro s
        rw [List.foldlM_cons]
        by_cases hw : w ∈ d
        · rw [if_neg (not_not.2 hw), addend_eq hbm hd hw]
          have hmore : bm.total (w :: query) d = bm.points d w + bm.total query d := by
            rw [BM25.total, List.filter_cons_of_pos (p := fun w => w ∈ d) (decide_eq_true hw),
              List.map_cons, List.sum_cons]
            rfl
          rw [hmore, ← add_assoc]
          exact ih (s + bm.points d w)
        · rw [if_pos hw]
          have hsame : bm.total (w :: query) d = bm.total query d := by
            rw [BM25.total, List.filter_cons_of_neg (p := fun w => w ∈ d) (by simp [hw])]
            rfl
          rw [hsame]
          exact ih s
  rw [BM25.score, hloop 0, zero_add]

/-- What a list keeps of its front, when what is kept stands before what is not. -/
theorem filter_take_of_pairwise {α : Type} {p : α → Bool} {l : List α}
    (h : l.Pairwise fun x y => p y = true → p x = true) (k : ℕ) :
    (l.take k).filter p = (l.filter p).take k := by
  induction l generalizing k with
  | nil => simp
  | cons x l ih =>
      obtain ⟨hx, hl⟩ := List.pairwise_cons.1 h
      cases k with
      | zero => simp
      | succ k =>
          by_cases hp : p x = true
          · rw [List.take_succ_cons, List.filter_cons_of_pos hp, List.filter_cons_of_pos hp,
              List.take_succ_cons, ih hl]
          · have hnone : l.filter p = [] :=
              List.filter_eq_nil_iff.2 fun y hy hpy => hp (hx y hy hpy)
            rw [List.take_succ_cons, List.filter_cons_of_neg hp, List.filter_cons_of_neg hp, hnone,
              ih hl, hnone, List.take_nil, List.take_nil]

/-- The documents with their scores, best first. -/
def BM25.sorted (bm : BM25 K) (query : List (List Char)) : List (ℕ × K) :=
  (bm.docs.zipIdx.map fun entry => (entry.2, bm.total query entry.1)).insertionSort
    fun x y => -x.2 ≤ -y.2

theorem mem_sorted {bm : BM25 K} {query : List (List Char)} {x : ℕ × K} :
    x ∈ bm.sorted query ↔ ∃ d, bm.docs[x.1]? = some d ∧ bm.total query d = x.2 := by
  rw [BM25.sorted, List.mem_insertionSort, List.mem_map]
  constructor
  · rintro ⟨entry, hmem, rfl⟩
    exact ⟨entry.1, List.mem_zipIdx_iff_getElem?.1 hmem, rfl⟩
  · rintro ⟨d, hd, hx⟩
    exact ⟨(d, x.1), List.mem_zipIdx_iff_getElem?.2 hd, Prod.ext rfl hx⟩

theorem nodup_sorted (bm : BM25 K) (query : List (List Char)) :
    ((bm.sorted query).map Prod.fst).Nodup := by
  have hperm := (List.perm_insertionSort (fun x y : ℕ × K => -x.2 ≤ -y.2)
    (bm.docs.zipIdx.map fun entry => (entry.2, bm.total query entry.1))).map Prod.fst
  apply hperm.nodup_iff.2
  have hplaces : (bm.docs.zipIdx.map fun entry => (entry.2, bm.total query entry.1)).map Prod.fst =
      bm.docs.zipIdx.map Prod.snd := List.map_map
  rw [hplaces, List.zipIdx_map_snd]
  exact List.nodup_range'

/-- The sort is by decreasing score and, as it is stable, then by index. -/
theorem pairwise_sorted [IsStrictOrderedRing K] (bm : BM25 K) (query : List (List Char)) :
    (bm.sorted query).Pairwise fun x y => y.2 < x.2 ∨ y.2 = x.2 ∧ x.1 < y.1 := by
  have : IsTrans (ℕ × K) fun x y => -x.2 ≤ -y.2 := ⟨fun _ _ _ => le_trans⟩
  have : Std.Total fun x y : ℕ × K => -x.2 ≤ -y.2 := ⟨fun x y => le_total (-x.2) (-y.2)⟩
  apply pairwise_insertionSort_of
  rw [List.pairwise_map]
  have hplaces : bm.docs.zipIdx.Pairwise fun x y => x.2 < y.2 := by
    rw [← List.pairwise_map (f := Prod.snd), List.zipIdx_map_snd]
    exact List.pairwise_lt_range'
  apply hplaces.imp
  intro x y hlt
  simp only [neg_le_neg_iff, not_le]
  constructor
  · intro hle
    rcases hle.lt_or_eq with hless | heq
    · exact Or.inl hless
    · exact Or.inr ⟨heq, hlt⟩
  · exact fun hless => Or.inl hless

theorem search_eq [IsStrictOrderedRing K] (hbm : Indexes log k1 b docs bm) (query : String)
    (k : ℤ) : bm.search unicode query k =
      some ((upTo k (bm.sorted (tok unicode query))).filter fun x => 0 < x.2) := by
  have hscored : bm.docs.zipIdx.mapM (fun entry =>
      (bm.score (tok unicode query) entry.1).map fun s => (entry.2, s)) =
        some (bm.docs.zipIdx.map fun entry => (entry.2, bm.total (tok unicode query) entry.1)) := by
    apply mapM_of_read
    intro entry hmem
    have hd : entry.1 ∈ docs := by
      rw [← hbm.docs_eq]
      exact List.mem_of_getElem? (List.mem_zipIdx_iff_getElem?.1 hmem)
    rw [score_eq hbm hd]
    rfl
  rw [BM25.search, hscored]
  rfl

end Field

/-! ## Over the reals -/

section Real

variable (unicode : Unicode)

/-- `math.log`, which raises where there is no logarithm. -/
noncomputable def mathLog (x : ℝ) : Option ℝ := if x ≤ 0 then none else some (Real.log x)

/-- A text shares a word with the query. -/
def SharesToken (text query : String) : Prop := ∃ w ∈ tok unicode query, w ∈ tok unicode text

/-- A ranking lists exactly the texts that share a word with the query, each once, with their
scores, by decreasing score and then by index. -/
structure RanksMatching (bm : BM25 ℝ) (texts : List String) (query : String)
    (ranked : List (ℕ × ℝ)) : Prop where
  found : ∀ i, i ∈ ranked.map Prod.fst ↔
    ∃ text, texts[i]? = some text ∧ SharesToken unicode text query
  once : (ranked.map Prod.fst).Nodup
  scored : ∀ x ∈ ranked, ∃ text, texts[x.1]? = some text ∧
    bm.score (tok unicode query) (tok unicode text) = some x.2
  ordered : ranked.Pairwise fun x y => y.2 < x.2 ∨ y.2 = x.2 ∧ x.1 < y.1

variable {unicode : Unicode} {docs : List (List (List Char))} {bm : BM25 ℝ}
variable {d query : List (List Char)} {w : List Char} {k1 b : ℝ}

/-- A word weighs something even when every document has it. -/
theorem idfValue_pos {N n : ℕ} (hn : n ≤ N) :
    ∃ value, idfValue mathLog N n = some value ∧ 0 < value := by
  have hodds : 0 < ((N : ℝ) - n + 1 / 2) / (n + 1 / 2) := by
    have hle : (n : ℝ) ≤ N := Nat.cast_le.2 hn
    apply div_pos
    · linarith
    · positivity
  refine ⟨_, ?_, Real.log_pos (lt_add_of_pos_right 1 hodds)⟩
  rw [idfValue_eq, mathLog, if_neg (not_le.2 (by linarith))]

theorem points_pos (hbm : Indexes mathLog k1 b docs bm)
    (hd : d ∈ docs) (hw : w ∈ d) : 0 < bm.points d w := by
  have hidf : 0 < bm.idf.getD w 0 := by
    have hcount : docs.countP (fun d => decide (w ∈ d)) ≠ 0 := by
      rw [← Nat.pos_iff_ne_zero, List.countP_pos_iff]
      exact ⟨d, hd, decide_eq_true hw⟩
    obtain ⟨value, hvalue, hpos⟩ := idfValue_pos (N := docs.length)
      (List.countP_le_length (p := fun d => decide (w ∈ d)) (l := docs))
    rw [Dict.getD, hbm.idf_eq, get?_documentFrequency, if_neg hcount, Option.bind_some, hvalue]
    exact hpos
  have hcount : (0 : ℝ) < d.count w := Nat.cast_pos.2 (List.count_pos_iff.2 hw)
  have hsaturation : 0 < bm.k1 + 1 := by
    rw [hbm.k1_eq]
    exact add_pos_of_nonneg_of_pos hbm.k1_nonneg one_pos
  exact div_pos (mul_pos hidf (mul_pos hcount hsaturation))
    (denominator_pos hbm hd hw)

/-- A document scores exactly when it shares a word. -/
theorem total_pos_iff (hbm : Indexes mathLog k1 b docs bm) (hd : d ∈ docs)
    (query : List (List Char)) : 0 < bm.total query d ↔ ∃ w ∈ query, w ∈ d := by
  constructor
  · intro hpos
    by_contra hnone
    push Not at hnone
    have hempty : (query.filter fun w => w ∈ d) = [] :=
      List.filter_eq_nil_iff.2 fun w hw => by simpa using hnone w hw
    rw [BM25.total, hempty] at hpos
    exact lt_irrefl _ hpos
  · rintro ⟨w, hquery, hw⟩
    apply List.sum_pos
    · intro x hx
      obtain ⟨w', hw', rfl⟩ := List.mem_map.1 hx
      exact points_pos hbm hd (of_decide_eq_true (List.mem_filter.1 hw').2)
    · apply List.ne_nil_of_mem (List.mem_map_of_mem (List.mem_filter.2 ⟨hquery, ?_⟩))
      exact decide_eq_true hw

section Matching

variable {texts : List String} (hbm : Indexes mathLog k1 b (texts.map (tok unicode)) bm)
include hbm

theorem getElem?_docs {i : ℕ} {d : List (List Char)} :
    bm.docs[i]? = some d ↔ ∃ text, texts[i]? = some text ∧ tok unicode text = d := by
  rw [hbm.docs_eq, List.getElem?_map, Option.map_eq_some_iff]

theorem mem_docs {i : ℕ} (hd : bm.docs[i]? = some d) : d ∈ texts.map (tok unicode) := by
  rw [← hbm.docs_eq]
  exact List.mem_of_getElem? hd

/-- The documents that score are those that share a word. -/
theorem ranksMatching_sorted (query : String) : RanksMatching unicode bm texts query
    ((bm.sorted (tok unicode query)).filter fun x => 0 < x.2) where
  found := by
    intro i
    constructor
    · intro hi
      obtain ⟨x, hx, rfl⟩ := List.mem_map.1 hi
      obtain ⟨hx, hpos⟩ := List.mem_filter.1 hx
      obtain ⟨d, hd, htotal⟩ := mem_sorted.1 hx
      obtain ⟨text, htext, rfl⟩ := (getElem?_docs hbm).1 hd
      rw [decide_eq_true_iff, ← htotal] at hpos
      exact ⟨text, htext, (total_pos_iff hbm (mem_docs hbm hd) _).1 hpos⟩
    · rintro ⟨text, htext, hshares⟩
      have hd := (getElem?_docs hbm).2 ⟨text, htext, rfl⟩
      have hpos := (total_pos_iff hbm (mem_docs hbm hd) _).2 hshares
      exact List.mem_map.2 ⟨(i, bm.total (tok unicode query) (tok unicode text)),
        List.mem_filter.2 ⟨mem_sorted.2 ⟨_, hd, rfl⟩, decide_eq_true hpos⟩, rfl⟩
  once := (nodup_sorted bm _).sublist (List.filter_sublist.map _)
  scored := by
    intro x hx
    obtain ⟨d, hd, htotal⟩ := mem_sorted.1 (List.mem_of_mem_filter hx)
    obtain ⟨text, htext, rfl⟩ := (getElem?_docs hbm).1 hd
    exact ⟨text, htext, htotal ▸ score_eq hbm (mem_docs hbm hd) _⟩
  ordered := (pairwise_sorted bm _).sublist List.filter_sublist

/-- Of the first `k` documents those that score are the first `k` that do. -/
theorem search_eq_take (query : String) (k : ℕ) : bm.search unicode query k =
    some (((bm.sorted (tok unicode query)).filter fun x => 0 < x.2).take k) := by
  rw [search_eq hbm, upTo_of_nonneg (Int.natCast_nonneg k), Int.toNat_natCast]
  congr 1
  apply filter_take_of_pairwise
  apply (pairwise_sorted bm _).imp
  intro x y hxy hpos
  rw [decide_eq_true_iff] at hpos ⊢
  rcases hxy with hless | ⟨heq, -⟩
  · exact hpos.trans hless
  · exact heq ▸ hpos

end Matching

/-- **Keyword search finds exactly the documents that share a word with the query.** No division is
by zero, and the first `k` are returned, by decreasing score and then by index. -/
theorem bm25_ranksMatching (unicode : Unicode) (texts : List String) (query : String) :
    ∃ bm ranked, BM25.new unicode mathLog texts (3 / 2) (3 / 4) = some bm ∧
      RanksMatching unicode bm texts query ranked ∧
      ∀ k : ℕ, bm.search unicode query k = some (ranked.take k) := by
  have hlog : ∀ n, 1 ≤ n → n ≤ texts.length →
      ∃ value, idfValue mathLog texts.length n = some value :=
    fun n _ hle => (idfValue_pos hle).imp fun _ h => h.1
  obtain ⟨bm, hnew, hbm⟩ := exists_new texts (3 / 2) (3 / 4) (by norm_num) (by norm_num)
    (by norm_num) hlog
  exact ⟨bm, _, hnew, ranksMatching_sorted hbm query, search_eq_take hbm query⟩

end Real

/-! ## The keyword half of the pipeline -/

/-- Over the rationals the search is the one that the pipeline makes. -/
theorem search_eq_bm25Search (unicode : Unicode) {ν : Type*} (numerics : Numerics ν)
    (texts : List String) (query : String) (k : ℤ) :
    ∃ bm, BM25.new unicode (fun x => some (numerics.log x)) texts (3 / 2) (3 / 4) = some bm ∧
      bm.search unicode query k = some (bm25Search unicode numerics texts query k) := by
  have hlog : ∀ n, 1 ≤ n → n ≤ texts.length →
      ∃ value, idfValue (fun x => some (numerics.log x)) texts.length n = some value :=
    fun n _ _ => ⟨_, idfValue_eq _ _ _⟩
  obtain ⟨bm, hnew, hbm⟩ := exists_new texts (3 / 2) (3 / 4) (by norm_num) (by norm_num)
    (by norm_num) hlog
  refine ⟨bm, hnew, ?_⟩
  rw [search_eq hbm]
  have hidf : ∀ w, bm.idf.getD w 0 = idf numerics (texts.map (tok unicode)) w := by
    intro w
    rw [Dict.getD, hbm.idf_eq, get?_documentFrequency, idf]
    by_cases hzero : (texts.map (tok unicode)).countP (fun d => decide (w ∈ d)) = 0
    · rw [if_pos hzero, if_pos (Nat.cast_eq_zero.2 hzero)]
      rfl
    · rw [if_neg hzero, if_neg (Nat.cast_ne_zero.2 hzero), Option.bind_some, idfValue_eq]
      rfl
  have htotal : ∀ d, bm.total (tok unicode query) d =
      bm25Score numerics (texts.map (tok unicode)) (tok unicode query) d := by
    intro d
    rw [BM25.total, bm25Score]
    congr 1
    apply List.map_congr_left
    intro w _
    rw [BM25.points, hidf, hbm.k1_eq, hbm.b_eq, hbm.avgdl_eq]
    rfl
  simp only [BM25.sorted, bm25Search, htotal, hbm.docs_eq, neg_le_neg_iff]

end DealFinder.Worker
