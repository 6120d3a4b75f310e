/-
# Retrieval that is judged

`agentic_answer` retrieves, judges the items, and reformulates the query while they are not
sufficient. It then answers the query it is left with over the snapshot. That is the query
of the last hop when that hop was sufficient, and otherwise a reformulation that was never
tried, and the snapshot need not be the corpus that was judged (`answers_judged_iff`).
-/

import DealFinder.Math.Retry
import DealFinder.Rag.Answer

namespace DealFinder.Rag

open DealFinder.Math DealFinder.Features

universe u

/-! ## Judging -/

/-- `Hop`. -/
structure Hop where
  query : String
  sufficient : Bool
  reason : String
  verdicts : List Shop.Verdict
  deriving DecidableEq

/-- `AgenticAnswer`. -/
structure AgenticAnswer where
  answer : String
  grounded : Bool
  hops : List Hop
  sources : List String
  usedLlm : Bool

/-- `sufficiency`. -/
def sufficiency (items : List RetrievedItem) : Bool × String :=
  match items with
  | [] => (false, "no items retrieved")
  | top :: _ =>
      let deals := items.countP fun it => it.verdict = .deal
      let suspicious := items.countP fun it => it.verdict = .suspicious
      if top.verdict ≠ .deal then
        (false, "top result is " ++ upper top.verdict ++ ", not a DEAL")
      else if deals < 2 then
        (false, "only " ++ toString deals ++ " DEAL in top-" ++ toString items.length ++
          " — too thin to recommend")
      else if deals ≤ suspicious then
        (false, toString suspicious ++ " SUSPICIOUS traps vs " ++ toString deals ++
          " DEALs — query too vague")
      else
        (true, toString deals ++ " DEALs, top is a DEAL, " ++ toString suspicious ++
          " traps — good evidence")

/-! ## Reformulating -/

/-- `_VAGUE`. -/
def vague : List String := ["cheap", "good", "best", "top", "nice", "affordable", "budget"]

/-- `_CAPABILITY_KEYS`. -/
def capabilityKeys : List String :=
  ["noise", "cancelling", "canceling", "wireless", "waterproof", "mechanical", "gaming",
    "portable", "hybrid", "active", "over", "true"]

/-- `_STRONG`. -/
def strong : List String :=
  ["noise", "cancelling", "canceling", "waterproof", "mechanical", "gaming", "hybrid", "active"]

/-- A phrase of two words. -/
abbrev Phrase := String × String

/-- `s.split()`. -/
def splitWords (s : String) : List String :=
  (runs (fun x => !isSpace x) s.toList).map String.ofList

/-- `rank`: a strong word first, then the count. -/
def outranks (x y : Phrase × ℕ) : Bool :=
  let isStrong := fun p : Phrase => decide (p.1 ∈ strong ∨ p.2 ∈ strong)
  (isStrong x.1 && !isStrong y.1) || (isStrong x.1 = isStrong y.1 && decide (y.2 ≤ x.2))

section Reformulation

variable (lang : Language)

/-- The capability phrases of a title. -/
def phrasesOf (title : String) : List Phrase :=
  let toks := (runs isLetter (lang.lower title).toList).map String.ofList
  (toks.zip toks.tail).filter fun p => p.1 ∈ capabilityKeys ∨ p.2 ∈ capabilityKeys

/-- The body of the loop over the products. -/
def countPhrases (perCat : Dict String (Dict Phrase ℕ)) (p : Product) :
    Dict String (Dict Phrase ℕ) :=
  let cat := if p.category = "" then "other" else p.category
  (phrasesOf lang p.title).foldl (fun perCat phrase =>
    let counts := perCat.getD cat Dict.empty
    perCat.set cat (counts.set phrase (counts.getD phrase 0 + 1))) perCat

/-- `_capability_lexicon`. -/
def capabilityLexicon (products : List Product) : Dict String (List Phrase) :=
  .ofPairs ((products.foldl (countPhrases lang) Dict.empty).entries.map fun (cat, counts) =>
    (cat, ((counts.entries.insertionSort fun x y => outranks x y).take 8).map Prod.fst))

/-- `_strip_vague`. -/
def stripVague (query : String) : String :=
  let kept := (splitWords query).filter fun w => lang.lower w ∉ vague
  if kept.isEmpty then query else " ".intercalate kept

end Reformulation

/-- `reformulate`. -/
def reformulate (base : String) (items : List RetrievedItem) (lexicon : Dict String (List Phrase))
    (tried : List Phrase) : String × Option Phrase :=
  let baseWords := splitWords base
  let cat := match items with
    | [] => "other"
    | top :: _ => top.category
  match (lexicon.getD cat []).find? fun p =>
    !(decide (p ∈ tried) || decide (p.1 ∈ baseWords ∧ p.2 ∈ baseWords)) with
  | some p =>
      let novel := " ".intercalate ([p.1, p.2].filter fun w => w ∉ baseWords)
      (strip (base ++ " " ++ novel ++ " deal"), some p)
  | none => (strip (base ++ " deal"), none)

/-- A phrase that has been tried is not used again. -/
theorem reformulate_untried {base : String} {items : List RetrievedItem}
    {lexicon : Dict String (List Phrase)} {tried : List Phrase} {p : Phrase}
    (h : p ∈ (reformulate base items lexicon tried).2) : p ∉ tried := by
  unfold reformulate at h
  dsimp only at h
  split at h
  · rename_i found hfound
    obtain rfl := Option.some.inj h
    have huntried := List.find?_some hfound
    rw [Bool.not_eq_true', Bool.or_eq_false_iff] at huntried
    exact of_decide_eq_false huntried.1
  · cases h

/-! ## The corpus -/

/-- What the program ships with: the products with their title embeddings, the embeddings by
id, and the medians. -/
structure Snapshot (ν : Type u) where
  corpus : Corpus ν
  vectors : Dict String ν
  medians : Dict String ℚ

/-- The corpus that a caller passes: none, products to be looked up in the cache, or products
with their embeddings. -/
inductive Passed (ν : Type u)
  | nothing
  | products (ps : List Product)
  | corpus (c : Corpus ν)

section Corpora

variable {ν : Type u}

/-- `load_catalog_embeddings`, of some products. An id that is not cached raises. -/
def loadCatalogEmbeddings (vectors : Dict String ν) (products : List Product) :
    Option (Corpus ν) :=
  if h : ∀ p ∈ products, p.id ∈ vectors then
    some
      { products := products
        embeddings := products.filterMap fun p => vectors.get? p.id
        aligned := by
          rw [List.length_filterMap_eq_countP, List.countP_eq_length]
          exact fun p hp => Dict.get?_isSome_iff.2 (h p hp) }
  else none

/-- The corpus that the hops retrieve from. -/
def Passed.judged (snapshot : Snapshot ν) : Passed ν → Option (Corpus ν)
  | nothing => some snapshot.corpus
  | products ps => loadCatalogEmbeddings snapshot.vectors ps
  | corpus c => some c

end Corpora

/-! ## The loop -/

/-- What the loop carries: the query to try, and the phrases that were used. -/
structure State where
  current : String
  tried : List Phrase

/-- A generation call: the query and the corpus it is asked over. -/
structure Asked (ν : Type u) where
  query : String
  corpus : Corpus ν

/-- What `agentic_answer` did: its hops, the phrases it used, and the generation call. -/
structure Run (ν : Type u) where
  hops : List Hop
  used : List Phrase
  asked : Asked ν

section Loop

variable {ν : Type u} (lang : Language) (numerics : Worker.Numerics ν) (snapshot : Snapshot ν)
  (corpus : Corpus ν) (base : String)

/-- `items`, of a hop. -/
def itemsOf (s : State) : List RetrievedItem :=
  retrieve lang.toUnicode numerics snapshot.medians corpus s.current 5

/-- The gate, on the items of a state. -/
def gate (s : State) : Bool := (sufficiency (itemsOf lang numerics snapshot corpus s)).1

/-- The hop of a query. -/
def hopOf (s : State) : Hop :=
  let items := itemsOf lang numerics snapshot corpus s
  let (ok, reason) := sufficiency items
  ⟨s.current, ok, reason, items.map fun it => it.verdict⟩

/-- The state after a hop that is not sufficient. -/
def reformulated (s : State) : State :=
  let (current, phrase) := reformulate base (itemsOf lang numerics snapshot corpus s)
    (capabilityLexicon lang corpus.products) s.tried
  ⟨current, s.tried ++ phrase.toList⟩

/-- The loop, with the hops it has still to make. -/
def loop : ℕ → State → List Hop × State
  | 0, s => ([], s)
  | n + 1, s =>
      let hop := hopOf lang numerics snapshot corpus s
      if hop.sufficient then ([hop], s)
      else
        let (hops, final) := loop n (reformulated lang numerics snapshot corpus base s)
        (hop :: hops, final)

/-- `base`: the query without its vague words, in lowercase. -/
def baseOf (query : String) : String := lang.lower (stripVague lang query)

/-- The start of a run. -/
def start (query : String) : State := ⟨query, []⟩

/-- `agentic_answer`, up to the generation call: `rag.answer` is passed no corpus, so it
retrieves from the snapshot. An id that is not cached raises in the first hop. -/
def agenticRun (query : String) (maxHops : ℕ) (passed : Passed ν) : Option (Run ν) :=
  (passed.judged snapshot).map fun corpus =>
    let (hops, final) :=
      loop lang numerics snapshot corpus (baseOf lang query) maxHops (start query)
    ⟨hops, final.tried, ⟨final.current, snapshot.corpus⟩⟩

/-- `agentic_answer`. -/
def agenticAnswer (llm : Llm) (query : String) (maxHops : ℕ) (passed : Passed ν) :
    Option AgenticAnswer :=
  (agenticRun lang numerics snapshot query maxHops passed).map fun run =>
    let final := answerOver lang llm run.asked.query
      (retrieve lang.toUnicode numerics snapshot.medians run.asked.corpus run.asked.query 5)
    ⟨final.answer, final.grounded, run.hops, final.sources, final.usedLlm⟩

end Loop

/-! ## The run -/

section Runs

variable {ν : Type u} {lang : Language} {numerics : Worker.Numerics ν} {snapshot : Snapshot ν}
  {corpus : Corpus ν} {base : String}

/-- A hop is sufficient if the gate lets its items pass. -/
theorem hopOf_sufficient (s : State) :
    (hopOf lang numerics snapshot corpus s).sufficient =
      gate lang numerics snapshot corpus s := by
  unfold hopOf gate
  dsimp only

theorem hopOf_query (s : State) : (hopOf lang numerics snapshot corpus s).query = s.current := by
  rw [hopOf]

/-- The loop makes judged attempts. -/
theorem loop_eq (n : ℕ) (s : State) :
    loop lang numerics snapshot corpus base n s =
      ((attempts (gate lang numerics snapshot corpus)
          (reformulated lang numerics snapshot corpus base) n s).map
            (hopOf lang numerics snapshot corpus),
        settled (gate lang numerics snapshot corpus)
          (reformulated lang numerics snapshot corpus base) n s) := by
  induction n generalizing s with
  | zero => rfl
  | succ n ih =>
      rw [loop, attempts, settled]
      dsimp only
      rw [hopOf_sufficient]
      split_ifs
      · rfl
      · rw [ih]
        rfl

theorem nodup_reformulated {s : State} (h : s.tried.Nodup) :
    (reformulated lang numerics snapshot corpus base s).tried.Nodup := by
  unfold reformulated
  dsimp only
  cases hphrase : (reformulate base (itemsOf lang numerics snapshot corpus s)
      (capabilityLexicon lang corpus.products) s.tried).2 with
  | none => rwa [Option.toList_none, List.append_nil]
  | some p =>
      rw [Option.toList_some]
      exact (List.nodup_middle.2 (List.nodup_cons.2
        ⟨by rw [List.append_nil]; exact reformulate_untried hphrase, by rwa [List.append_nil]⟩))

/-- What every run keeps to: at least one hop and at most the bound, none sufficient but the
last, and no phrase used twice. -/
structure Within (maxHops : ℕ) (run : Run ν) : Prop where
  some : run.hops ≠ []
  bounded : run.hops.length ≤ maxHops
  onlyLast : ∀ hop ∈ run.hops.dropLast, hop.sufficient = false
  once : run.used.Nodup

/-- The generation call is for the query of the last hop and the corpus that was judged. -/
def FromLastHop (corpus : Corpus ν) (run : Run ν) : Prop :=
  ∃ hop ∈ run.hops.getLast?, run.asked = ⟨hop.query, corpus⟩

section Trail

variable (lang numerics snapshot corpus) (query : String)

/-- The state after some reformulations of a query, whatever the gate says. -/
def reformulations (n : ℕ) : State :=
  (reformulated lang numerics snapshot corpus (baseOf lang query))^[n] (start query)

/-- Some query within the bound retrieves sufficient items. -/
def SufficientWithin (maxHops : ℕ) : Prop :=
  ∃ n < maxHops, gate lang numerics snapshot corpus
    (reformulations lang numerics snapshot corpus query n) = true

/-- The queries that are tried. -/
def tries (maxHops : ℕ) : List State :=
  attempts (gate lang numerics snapshot corpus)
    (reformulated lang numerics snapshot corpus (baseOf lang query)) maxHops (start query)

/-- The state that the loop leaves. -/
def final (maxHops : ℕ) : State :=
  settled (gate lang numerics snapshot corpus)
    (reformulated lang numerics snapshot corpus (baseOf lang query)) maxHops (start query)

/-- A run, by its attempts. -/
def runOf (maxHops : ℕ) : Run ν where
  hops := (tries lang numerics snapshot corpus query maxHops).map
    (hopOf lang numerics snapshot corpus)
  used := (final lang numerics snapshot corpus query maxHops).tried
  asked := ⟨(final lang numerics snapshot corpus query maxHops).current, snapshot.corpus⟩

end Trail

variable {query : String} {maxHops : ℕ}

theorem agenticRun_eq {passed : Passed ν} (h : passed.judged snapshot = some corpus) :
    agenticRun lang numerics snapshot query maxHops passed =
      some (runOf lang numerics snapshot corpus query maxHops) := by
  rw [agenticRun, h, Option.map_some, loop_eq]
  rfl

@[simp]
theorem runOf_used : (runOf lang numerics snapshot corpus query maxHops).used =
    (final lang numerics snapshot corpus query maxHops).tried := by
  rw [runOf]

@[simp]
theorem runOf_asked : (runOf lang numerics snapshot corpus query maxHops).asked =
    ⟨(final lang numerics snapshot corpus query maxHops).current, snapshot.corpus⟩ := by
  rw [runOf]

theorem within_runOf (h : 1 ≤ maxHops) :
    Within maxHops (runOf lang numerics snapshot corpus query maxHops) := by
  obtain ⟨n, rfl⟩ : ∃ n, maxHops = n + 1 := ⟨maxHops - 1, by omega⟩
  have hsome : tries lang numerics snapshot corpus query (n + 1) ≠ [] := attempts_succ_ne_nil n _
  have hbounded : (tries lang numerics snapshot corpus query (n + 1)).length ≤ n + 1 :=
    length_attempts_le (n + 1) _
  have honce : (final lang numerics snapshot corpus query (n + 1)).tried.Nodup :=
    @settled_induction State _ _ (fun s => s.tried.Nodup) (fun s hs _ => nodup_reformulated hs)
      (n + 1) (start query) List.nodup_nil
  rw [← runOf_used] at honce
  refine ⟨?_, ?_, ?_, honce⟩
  · exact fun hnil => hsome (List.map_eq_nil_iff.1 hnil)
  · rw [runOf, List.length_map]
    exact hbounded
  · intro hop hhop
    rw [runOf, ← List.map_dropLast] at hhop
    obtain ⟨s, hs, rfl⟩ := List.mem_map.1 hhop
    rw [hopOf_sufficient]
    exact not_accepts_of_mem_dropLast hs

theorem fromLastHop_runOf_iff (h : 1 ≤ maxHops) :
    FromLastHop corpus (runOf lang numerics snapshot corpus query maxHops) ↔
      corpus = snapshot.corpus ∧
        (SufficientWithin lang numerics snapshot corpus query maxHops ∨
          (reformulations lang numerics snapshot corpus query maxHops).current =
            (reformulations lang numerics snapshot corpus query (maxHops - 1)).current) := by
  obtain ⟨n, rfl⟩ : ∃ n, maxHops = n + 1 := ⟨maxHops - 1, by omega⟩
  have hlast := @settled_like_last_iff State String (gate lang numerics snapshot corpus)
    (reformulated lang numerics snapshot corpus (baseOf lang query)) State.current n (start query)
  have hquery : FromLastHop corpus (runOf lang numerics snapshot corpus query (n + 1)) ↔
      corpus = snapshot.corpus ∧
        ∃ last ∈ (tries lang numerics snapshot corpus query (n + 1)).getLast?,
          (final lang numerics snapshot corpus query (n + 1)).current = last.current := by
    constructor
    · rintro ⟨hop, hhop, hasked⟩
      rw [runOf, List.getLast?_map, Option.mem_map] at hhop
      obtain ⟨last, hmem, rfl⟩ := hhop
      rw [runOf_asked, hopOf_query] at hasked
      obtain ⟨hcurrent, hcorpus⟩ := Asked.mk.inj hasked
      exact ⟨hcorpus.symm, last, hmem, hcurrent⟩
    · rintro ⟨rfl, last, hmem, hcurrent⟩
      refine ⟨hopOf lang numerics snapshot snapshot.corpus last, ?_, ?_⟩
      · rw [runOf, List.getLast?_map]
        exact Option.mem_map_of_mem _ hmem
      · rw [runOf_asked, hopOf_query, hcurrent]
  rw [hquery]
  exact and_congr_right fun _ => hlast

/-- **When the answer rests on the hops.** Every run keeps to its bounds. Its answer is
generated from the last hop exactly when the snapshot is the corpus that was judged, and
some query within the bound was sufficient or the last reformulation changed nothing. -/
theorem answers_judged_iff (lang : Language) (numerics : Worker.Numerics ν)
    (snapshot : Snapshot ν) (query : String) (maxHops : ℕ) (hmax : 1 ≤ maxHops)
    (passed : Passed ν) (corpus : Corpus ν) (hcorpus : passed.judged snapshot = some corpus) :
    ∃ run, agenticRun lang numerics snapshot query maxHops passed = some run ∧
      Within maxHops run ∧
      (FromLastHop corpus run ↔
        corpus = snapshot.corpus ∧
          (SufficientWithin lang numerics snapshot corpus query maxHops ∨
            (reformulations lang numerics snapshot corpus query maxHops).current =
              (reformulations lang numerics snapshot corpus query (maxHops - 1)).current)) :=
  ⟨_, agenticRun_eq hcorpus, within_runOf hmax, fromLastHop_runOf_iff hmax⟩

end Runs

/-! ## An answer that no hop judged -/

/-- Headphones at a fair price, and no others. -/
def oneListing : Snapshot Unit where
  corpus := ⟨[Worker.headphones "a" 90], [()], rfl⟩
  vectors := Dict.empty.set "a" ()
  medians := Dict.empty.set "a" 100

theorem answers_judged_iff_headphones :
    ∃ run, agenticRun plainLanguage (Worker.constant 100) oneListing "headphones" 1
        (.corpus oneListing.corpus) = some run ∧
      Within 1 run ∧
      (FromLastHop oneListing.corpus run ↔
        oneListing.corpus = oneListing.corpus ∧
          (SufficientWithin plainLanguage (Worker.constant 100) oneListing oneListing.corpus
              "headphones" 1 ∨
            (reformulations plainLanguage (Worker.constant 100) oneListing oneListing.corpus
                "headphones" 1).current =
              (reformulations plainLanguage (Worker.constant 100) oneListing oneListing.corpus
                "headphones" (1 - 1)).current)) :=
  answers_judged_iff plainLanguage (Worker.constant 100) oneListing "headphones" 1 le_rfl
    (.corpus oneListing.corpus) oneListing.corpus rfl

/-- After its only hop the answer is generated for a query that no hop tried. -/
theorem untried_query_answered :
    ∃ run, agenticRun plainLanguage (Worker.constant 100) oneListing "headphones" 1
        (.corpus oneListing.corpus) = some run ∧
      run.hops.map (fun hop => (hop.query, hop.sufficient)) = [("headphones", false)] ∧
      run.asked.query = "headphones deal" ∧ ¬ FromLastHop oneListing.corpus run := by
  have hrun := @agenticRun_eq Unit plainLanguage (Worker.constant 100) oneListing
    oneListing.corpus "headphones" 1 (.corpus oneListing.corpus) rfl
  have hhops : (runOf plainLanguage (Worker.constant 100) oneListing oneListing.corpus
      "headphones" 1).hops.map (fun hop => (hop.query, hop.sufficient)) =
        [("headphones", false)] := by
    decide +kernel
  have hquery : (runOf plainLanguage (Worker.constant 100) oneListing oneListing.corpus
      "headphones" 1).asked.query = "headphones deal" := by
    decide +kernel
  refine ⟨_, hrun, hhops, hquery, ?_⟩
  rintro ⟨hop, hhop, hasked⟩
  have hmem := List.mem_map_of_mem (f := fun hop : Hop => (hop.query, hop.sufficient))
    (List.mem_of_getLast? hhop)
  rw [hhops, List.mem_singleton] at hmem
  have hsame := congrArg Asked.query hasked
  rw [hquery] at hsame
  exact absurd (hsame.trans (congrArg Prod.fst hmem)) (by decide)

end DealFinder.Rag
