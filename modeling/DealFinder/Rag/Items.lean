/-
# Retrieved items

`retrieve` ranks a corpus for a query and gives each result its verdict, against the
medians of the snapshot and the models of the corpus. The context block is what an answer
may rest on: one line an item.
-/

import DealFinder.Rag.Language
import DealFinder.Worker.TrapGate

namespace DealFinder.Rag

open DealFinder.Math DealFinder.Features

universe u

/-- `RetrievedItem`. -/
structure RetrievedItem where
  id : String
  title : String
  price : ℚ
  source : String
  category : String
  similarity : ℚ
  verdict : Shop.Verdict
  medianSignal : ℚ
  fairPrice : ℚ
  residualFrac : ℚ
  reason : String
  deriving DecidableEq

/-- A label in capitals. -/
def upper : Shop.Verdict → String
  | .deal => "DEAL"
  | .suspicious => "SUSPICIOUS"
  | .fair => "FAIR"
  | .overpriced => "OVERPRICED"

/-! ## Retrieval -/

/-- Products, each with its embedding. -/
structure Corpus (ν : Type u) where
  products : List Product
  embeddings : List ν
  aligned : embeddings.length = products.length

section Retrieval

variable {ν : Type u} (unicode : Unicode) (numerics : Worker.Numerics ν)

/-- `_verdict_for`: without a model the product's own price is the fair one. -/
def verdictFor (products : List Product) (p : Product) (median : ℚ) : Worker.Rated :=
  match Worker.fittedModel unicode numerics products p.category with
  | some model => Worker.verdict p.price median (model (featurize unicode p))
  | none => Worker.verdict p.price median p.price

/-- The item of a search result. -/
def toItem (medians : Dict String ℚ) (products : List Product) (p : Product) (score : ℚ) :
    RetrievedItem :=
  let v := verdictFor unicode numerics products p (medians.getD p.id 0)
  { id := p.id
    title := p.title
    price := p.price
    source := p.source
    category := p.category
    similarity := Shop.roundTo 4 score
    verdict := v.label
    medianSignal := Shop.roundTo 4 v.medianSignal
    fairPrice := Shop.roundTo 2 v.fairPrice
    residualFrac := Shop.roundTo 4 v.residualFrac
    reason := v.reason }

/-- `retrieve`, without the database: the medians are those of the snapshot, whatever
the corpus. -/
def retrieve (medians : Dict String ℚ) (corpus : Corpus ν) (query : String) (k : ℤ) :
    List RetrievedItem :=
  let catalog : Worker.Catalog ν := ⟨corpus.products, corpus.embeddings, medians, corpus.aligned⟩
  (Worker.searchCatalog unicode numerics catalog query k (1 / 2)).map fun (_, p, score) =>
    toItem unicode numerics medians corpus.products p score

end Retrieval

/-! ## The context -/

/-- The line of an item in the context block. -/
def contextLine (i : ℕ) (it : RetrievedItem) : String :=
  "[" ++ toString i ++ "] " ++ it.title ++ " — $" ++ Shop.fixed 2 it.price ++
    (" (" ++ it.source ++ ") [" ++ upper it.verdict ++ "] — " ++ it.reason)

/-- `build_context`. -/
def buildContext (items : List RetrievedItem) : String :=
  "\n".intercalate ((items.zipIdx 1).map fun (it, i) => contextLine i it)

/-- A text stands in what it is joined into. -/
theorem infix_intercalate {sep s : String} {l : List String} (h : s ∈ l) :
    s.toList <:+: (sep.intercalate l).toList := by
  induction l with
  | nil => cases h
  | cons first rest ih =>
      cases rest with
      | nil =>
          obtain rfl := List.mem_singleton.1 h
          simp
      | cons second rest =>
          rw [String.intercalate_cons_of_ne_nil (by simp), String.toList_append,
            String.toList_append]
          rcases List.mem_cons.1 h with rfl | hrest
          · exact ((List.prefix_append _ _).trans (List.prefix_append _ _)).isInfix
          · exact (ih hrest).trans (List.suffix_append _ _).isInfix

/-- The line of an item stands in the context. -/
theorem infix_buildContext {items : List RetrievedItem} {it : RetrievedItem} (h : it ∈ items) :
    ∃ i, ∃ before after : List Char,
      (buildContext items).toList = before ++ (contextLine i it).toList ++ after := by
  obtain ⟨i, hi⟩ : ∃ i, (it, i) ∈ items.zipIdx 1 := by
    obtain ⟨n, hn, rfl⟩ := List.getElem_of_mem h
    exact ⟨1 + n, List.mem_zipIdx_iff_le_and_getElem?_sub.2 ⟨by omega, by simp [hn]⟩⟩
  have hline : contextLine i it ∈ (items.zipIdx 1).map fun (it, i) => contextLine i it :=
    List.mem_map.2 ⟨(it, i), hi, rfl⟩
  obtain ⟨before, after, htext⟩ := @infix_intercalate "\n" _ _ hline
  exact ⟨i, before, after, htext.symm⟩

end DealFinder.Rag
