/-
# Answers

`answer` retrieves, asks the language model about the items when there is one, and falls
back on the deterministic answer when there is none or it fails. Whichever path is taken,
an answer over some items is marked grounded by the guard and names its sources among them.
-/

import DealFinder.Rag.Synthesis

namespace DealFinder.Rag

open DealFinder.Math DealFinder.Features

universe u

/-- The client of a language model: whether it is available, and the content it answers some
messages with. `none` is a call that raises, and `some none` an answer without content. -/
structure Llm where
  available : Bool
  chat : List (String × String) → Option (Option String)

/-- `_SYSTEM`. -/
def system : String :=
  "You are DealFinder's shopping assistant. Answer ONLY using the numbered " ++
    "listings provided. Cite every item you mention by its exact title and price. " ++
    "If none of the listings qualify, say so plainly. Do NOT invent products, " ++
    "prices, brands, or specs that are not in the listings."

/-- `text.split(sep)[0]`. -/
def partBefore (sep : List Char) : List Char → List Char
  | [] => []
  | x :: rest => if sep <+: x :: rest then [] else x :: partBefore sep rest

section Generation

variable (lang : Language)

/-- `_title_cited`. -/
def titleCited (it : RetrievedItem) (text : String) : Bool :=
  let head := [' '].intercalate ((tokens lang it.title).take 3)
  (!head.isEmpty && decide (head <:+: norm lang text)) ||
    decide (Shop.fixed 2 it.price ∈ pricesIn lang text)

/-- The messages of `_llm_answer`. -/
def messages (query : String) (items : List RetrievedItem) : List (String × String) :=
  [("system", system),
    ("user", "Question: " ++ query ++ "\n\n" ++
      "Listings (the ONLY evidence you may use):\n" ++ buildContext items ++ "\n\n" ++
      "Recommend the best pick, a runner-up, and warn about any SUSPICIOUS trap. " ++
      "Cite each by title and price.")]

/-- `_llm_answer`, unless the call raises. -/
def llmAnswer (query : String) (items : List RetrievedItem) (llm : Llm) : Option RagAnswer :=
  (llm.chat (messages query items)).map fun content =>
    let text := strip (content.getD "")
    let used := (items.filter fun it =>
      !(norm lang (String.ofList (partBefore " — ".toList it.title.toList))).isEmpty &&
        titleCited lang it text).map fun it => it.id
    { answer := text
      sources := if used.isEmpty then items.map fun it => it.id else used
      grounded := isGrounded lang text items
      usedLlm := true }

/-- `answer`, of the items that are retrieved. -/
def answerOver (llm : Llm) (query : String) (items : List RetrievedItem) : RagAnswer :=
  if llm.available then
    (llmAnswer lang query items llm).getD (deterministicAnswer lang query items)
  else deterministicAnswer lang query items

end Generation

variable {lang : Language} {llm : Llm} {query : String} {items : List RetrievedItem}

/-- An answer comes from the model or is the deterministic one. -/
theorem answerOver_cases :
    llmAnswer lang query items llm = some (answerOver lang llm query items) ∨
      answerOver lang llm query items = deterministicAnswer lang query items := by
  unfold answerOver
  split_ifs
  · cases llmAnswer lang query items llm with
    | none => exact Or.inr rfl
    | some final => exact Or.inl rfl
  · exact Or.inr rfl

/-- Over some items an answer is marked grounded exactly when the guard accepts it. -/
theorem grounded_answerOver (h : items ≠ []) :
    (answerOver lang llm query items).grounded =
      isGrounded lang (answerOver lang llm query items).answer items := by
  rcases @answerOver_cases lang llm query items with hllm | hdeterministic
  · obtain ⟨content, -, hfinal⟩ := Option.map_eq_some_iff.1 hllm
    rw [← hfinal]
  · obtain ⟨it, hit⟩ := exists_hero h
    rw [hdeterministic, deterministicAnswer_of_hero hit]

theorem sources_deterministicAnswer :
    (deterministicAnswer lang query items).sources ⊆ items.map fun it => it.id := by
  cases hhero : hero items with
  | none =>
      rw [deterministicAnswer, hhero]
      exact List.nil_subset _
  | some it =>
      rw [deterministicAnswer_of_hero hhero]
      intro id hid
      rw [List.mem_append, List.mem_append, List.mem_singleton, List.mem_map, List.mem_map] at hid
      rcases hid with (rfl | ⟨r, hr, rfl⟩) | ⟨t, ht, rfl⟩
      · exact List.mem_map_of_mem (hero_mem hhero)
      · exact List.mem_map_of_mem (mem_runners (Option.mem_toList.1 hr)).1
      · exact List.mem_map_of_mem (mem_suspicious (Option.mem_toList.1 ht)).1

/-- The sources of an answer are retrieved items. -/
theorem sources_answerOver :
    (answerOver lang llm query items).sources ⊆ items.map fun it => it.id := by
  rcases @answerOver_cases lang llm query items with hllm | hdeterministic
  · obtain ⟨content, -, hfinal⟩ := Option.map_eq_some_iff.1 hllm
    rw [← hfinal]
    dsimp only
    split_ifs
    · exact List.Subset.refl _
    · exact List.map_subset _ (List.filter_subset_self _)
  · rw [hdeterministic]
    exact sources_deterministicAnswer

end DealFinder.Rag
