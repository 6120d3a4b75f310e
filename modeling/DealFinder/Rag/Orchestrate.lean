/-
# Writer and reviewer

The reviewer reads an answer against its own retrieval: it must be grounded, lead with a
deal, and warn of a trap. When a draft is rejected the deterministic answer takes its place.
That answer is grounded and warns, but the reviewer finds its lead by text: the cut title is
looked up in the titles of all items, and the first that contains it may be another item's
(`guaranteed_iff`).
-/

import DealFinder.Rag.Faithful
import DealFinder.Rag.Lead

namespace DealFinder.Rag

open DealFinder.Math DealFinder.Features

/-- `Review.checks`. -/
structure Checks where
  grounded : Bool
  leadIsADeal : Bool
  trapWarned : Bool
  deriving DecidableEq

namespace Checks

/-- `all(checks.values())`. -/
def all (c : Checks) : Bool := c.grounded && c.leadIsADeal && c.trapWarned

end Checks

/-- `Review`. -/
structure Review where
  approved : Bool
  issues : List String
  checks : Checks

/-- `Orchestrated`. -/
structure Orchestrated where
  answer : String
  approved : Bool
  review : Review
  revised : Bool
  usedLlm : Bool

section Reviewer

variable (lang : Language)

/-- `_norm`: the words in lowercase, a space between two. -/
def normTitle (s : String) : List Char :=
  [' '].intercalate (runs (fun x => !isSpace x) (lang.lower s).toList)

/-- `by_title`. -/
def byTitle (items : List RetrievedItem) : Dict (List Char) RetrievedItem :=
  .ofPairs (items.map fun it => (normTitle lang it.title, it))

/-- `lead_item`: the item of the first title that contains the lead. -/
def leadItem (items : List RetrievedItem) (lead : List Char) : Option RetrievedItem :=
  ((byTitle lang items).entries.find? fun (t, _) => !lead.isEmpty && decide (lead <:+: t)).map
    Prod.snd

/-- The answer says "suspicious" or "avoid". -/
def warns (answer : String) : Bool :=
  decide ("suspicious".toList <:+: (lang.lower answer).toList) ||
    decide ("avoid".toList <:+: (lang.lower answer).toList)

/-- `review`, of the items that the reviewer retrieves. -/
def review (items : List RetrievedItem) (answer : RagAnswer) : Review :=
  let grounded := isGrounded lang answer.answer items
  let item := leadItem lang items (normTitle lang (leadTitle lang answer.answer))
  let warned := (suspicious items).isEmpty || warns lang answer.answer
  let checks : Checks := ⟨grounded, item.any fun it => it.verdict = .deal, warned⟩
  { approved := checks.all
    issues :=
      (if grounded then [] else ["cites a product or price not in the retrieved evidence"]) ++
        (match item with
          | some it =>
              if it.verdict = .deal then []
              else ["lead pick is " ++ upper it.verdict ++ ", not a DEAL: " ++ it.title]
          | none => ["could not identify the lead pick in the evidence"]) ++
        (match suspicious items with
          | [] => []
          | trap :: _ =>
              if warned then []
              else ["retrieved a SUSPICIOUS trap (" ++ trap.title ++ ") but did not warn about it"])
    checks := checks }

/-- `orchestrate`, once the writer has its draft. Writer and reviewer retrieve the same
items. -/
def orchestrate (query : String) (items : List RetrievedItem) (draft : RagAnswer) :
    Orchestrated :=
  let r := review lang items draft
  if r.approved then ⟨draft.answer, true, r, false, draft.usedLlm⟩
  else
    let fixed := deterministicAnswer lang query items
    let r2 := review lang items fixed
    ⟨fixed.answer, r2.approved, r2, true, false⟩

/-- What the fallback promises: its answer passes every check, and no draft is left without
an approved answer. -/
structure Guaranteed (query : String) (items : List RetrievedItem) : Prop where
  passes : (review lang items (deterministicAnswer lang query items)).checks = ⟨true, true, true⟩
  approved : ∀ draft, (orchestrate lang query items draft).approved = true

/-- The lead that a title gives is on one line, and the first title that contains it is a
deal's. -/
structure LeadsWithDeal (items : List RetrievedItem) (title : String) : Prop where
  line : '\n' ∉ cut lang title
  deal : ∃ it, leadItem lang items (normTitle lang (String.ofList (trim (cut lang title)))) =
    some it ∧ it.verdict = .deal

end Reviewer

variable {lang : Language} {items : List RetrievedItem} {it : RetrievedItem} {query : String}

/-! ## What the reviewer says -/

/-- An answer is approved exactly when no issue is found with it. -/
theorem review_issues (answer : RagAnswer) :
    (review lang items answer).issues = [] ↔ (review lang items answer).approved = true := by
  unfold review Checks.all
  dsimp only
  rw [List.append_eq_nil_iff, List.append_eq_nil_iff, Bool.and_eq_true, Bool.and_eq_true]
  refine and_congr (and_congr ?_ ?_) ?_
  · cases isGrounded lang answer.answer items with
    | true => simp
    | false => simp
  · cases leadItem lang items (normTitle lang (leadTitle lang answer.answer)) with
    | none => simp
    | some lead => by_cases hdeal : lead.verdict = .deal <;> simp [hdeal]
  · cases hsuspicious : suspicious items with
    | nil => simp
    | cons trap traps => cases warns lang answer.answer <;> simp

/-! ## The fallback -/

theorem warns_of_avoid {s : String} (h : "avoid".toList <:+: (lang.lower s).toList) :
    warns lang s = true := by
  unfold warns
  simp only [Bool.or_eq_true, decide_eq_true_eq]
  exact Or.inr h

theorem avoid_infix_trapPart (trap : RetrievedItem) :
    "Avoid".toList <:+: (trapPart trap).toList := by
  have hlabel : "Avoid: ".toList = "Avoid".toList ++ ": ".toList := by decide +kernel
  obtain ⟨rest, hrest⟩ : ∃ rest, trapPart trap = "Avoid: " ++ rest :=
    ⟨_, by unfold trapPart; rw [String.append_assoc, String.append_assoc, String.append_assoc]⟩
  rw [hrest, String.toList_append, hlabel, List.append_assoc]
  exact (List.prefix_append _ _).isInfix

/-- An answer that names a trap warns of it. -/
theorem warns_answerText (h : suspicious items ≠ []) :
    warns lang (answerText items it) = true := by
  obtain ⟨trap, traps, htraps⟩ := List.exists_cons_of_ne_nil h
  have hpart : trapPart trap ∈ [heroPart it] ++ (runners items it).head?.toList.map runnerPart ++
      (suspicious items).head?.toList.map trapPart := by
    apply List.mem_append_right
    rw [List.mem_map]
    exact ⟨trap, by rw [htraps]; exact List.mem_cons_self, rfl⟩
  have hword : "Avoid".toList.map Char.toLower = "avoid".toList := by decide +kernel
  have hall : "Avoid".toList.all (fun c => c.toNat < 128) = true := by decide +kernel
  have hascii : ∀ c ∈ "Avoid".toList, c.toNat < 128 := fun c hc =>
    of_decide_eq_true (List.all_eq_true.1 hall c hc)
  have hlower := @infix_lower lang "Avoid".toList hascii (answerText items it)
    ((avoid_infix_trapPart trap).trans (infix_intercalate hpart))
  rw [hword] at hlower
  exact warns_of_avoid hlower

/-- Of the checks of the fallback only that of the lead can fail. -/
theorem review_answerText (h : hero items = some it) :
    (review lang items (deterministicAnswer lang query items)).checks =
      ⟨true, (leadItem lang items (normTitle lang (leadTitle lang (answerText items it)))).any
        fun it => it.verdict = .deal, true⟩ := by
  have hwarned : ((suspicious items).isEmpty || warns lang (answerText items it)) = true := by
    rw [Bool.or_eq_true]
    by_cases hsuspicious : suspicious items = []
    · exact Or.inl (List.isEmpty_iff.2 hsuspicious)
    · exact Or.inr (warns_answerText hsuspicious)
  rw [review, deterministicAnswer_of_hero h, isGrounded_answerText h, hwarned]

/-- The guarantee is that the fallback passes, since a draft that is no better is replaced by
it. -/
theorem guaranteed_iff_lead (h : hero items = some it) :
    Guaranteed lang query items ↔
      (leadItem lang items (normTitle lang (leadTitle lang (answerText items it)))).any
        (fun it => it.verdict = .deal) = true := by
  constructor
  · intro hguaranteed
    have hpasses := hguaranteed.passes
    rw [review_answerText h] at hpasses
    exact congrArg Checks.leadIsADeal hpasses
  · intro hlead
    have hpasses : (review lang items (deterministicAnswer lang query items)).checks =
        ⟨true, true, true⟩ := by
      rw [review_answerText h, hlead]
    refine ⟨hpasses, fun draft => ?_⟩
    have happroved :
        (review lang items (deterministicAnswer lang query items)).approved = true := by
      show Checks.all (review lang items (deterministicAnswer lang query items)).checks = true
      rw [hpasses]
      rfl
    unfold orchestrate
    dsimp only
    split_ifs
    · rfl
    · exact happroved

/-- **When the fallback is a guarantee.** The answer with the first deal as its best value
passes every check, so that every draft ends in an approved answer, when the lead that the
deal's title gives is first contained in the title of a deal. When that lead is on one line,
only then. -/
theorem guaranteed_iff (lang : Language) (query : String) (items : List RetrievedItem)
    (h : ∃ it ∈ items, it.verdict = .deal) :
    ∃ it, (deals items).head? = some it ∧
      (LeadsWithDeal lang items it.title → Guaranteed lang query items) ∧
      ('\n' ∉ cut lang it.title →
        (Guaranteed lang query items ↔ LeadsWithDeal lang items it.title)) := by
  obtain ⟨deal, hmem, hdeal⟩ := h
  have hdealt : deal ∈ deals items := List.mem_filter.2 ⟨hmem, decide_eq_true hdeal⟩
  obtain ⟨it, others, hdeals⟩ := List.exists_cons_of_ne_nil (List.ne_nil_of_mem hdealt)
  have hfirst : (deals items).head? = some it := by
    rw [hdeals]
    rfl
  have hhero : hero items = some it := by
    rw [hero, hfirst]
    rfl
  have hiff : '\n' ∉ cut lang it.title →
      (Guaranteed lang query items ↔ LeadsWithDeal lang items it.title) := by
    intro hline
    rw [guaranteed_iff_lead hhero, leadTitle_answerText hline, Option.any_eq_true]
    constructor
    · rintro ⟨lead, hlead, hdeal⟩
      exact ⟨hline, lead, hlead, of_decide_eq_true hdeal⟩
    · rintro ⟨-, lead, hlead, hdeal⟩
      exact ⟨lead, hlead, decide_eq_true hdeal⟩
  exact ⟨it, hfirst, fun hleads => (hiff hleads.line).2 hleads, hiff⟩

/-! ## A deal behind another title -/

/-- A dearer model, whose title contains that of the deal. -/
def earbudsPro : RetrievedItem :=
  { earbuds with id := "p", title := "Anker Q20i Pro", price := 90, verdict := .fair }

theorem guaranteed_iff_earbuds :
    ∃ it, (deals [earbudsPro, earbuds]).head? = some it ∧
      (LeadsWithDeal plainLanguage [earbudsPro, earbuds] it.title →
        Guaranteed plainLanguage "earbuds" [earbudsPro, earbuds]) ∧
      ('\n' ∉ cut plainLanguage it.title →
        (Guaranteed plainLanguage "earbuds" [earbudsPro, earbuds] ↔
          LeadsWithDeal plainLanguage [earbudsPro, earbuds] it.title)) :=
  guaranteed_iff plainLanguage "earbuds" [earbudsPro, earbuds]
    ⟨earbuds, by simp, by decide⟩

/-- The reviewer takes the lead for the dearer model and rejects the fallback. -/
theorem fallback_rejected :
    (∃ it ∈ [earbudsPro, earbuds], it.verdict = .deal) ∧
      ¬ Guaranteed plainLanguage "earbuds" [earbudsPro, earbuds] := by
  refine ⟨⟨earbuds, by simp, by decide⟩, fun hguaranteed => ?_⟩
  have hchecks : (review plainLanguage [earbudsPro, earbuds]
      (deterministicAnswer plainLanguage "earbuds" [earbudsPro, earbuds])).checks =
        ⟨true, false, true⟩ := by
    decide +kernel
  rw [hguaranteed.passes] at hchecks
  exact absurd hchecks (by decide)

end DealFinder.Rag
