/-
# The deterministic answer

`_deterministic_answer` names the best deal, a runner-up that is not suspicious, and the
first suspicious item as the one to avoid. When there is no deal the best value is the
first item, and that is not tested for being suspicious (`never_warned_iff`).
-/

import DealFinder.Rag.Grounding

namespace DealFinder.Rag

open DealFinder.Math

/-- `RagAnswer`. -/
structure RagAnswer where
  answer : String
  sources : List String
  grounded : Bool
  usedLlm : Bool

section Picks

variable (items : List RetrievedItem)

/-- `deals`. -/
def deals : List RetrievedItem := items.filter fun it => it.verdict = .deal

/-- `suspicious`. -/
def suspicious : List RetrievedItem := items.filter fun it => it.verdict = .suspicious

/-- `hero`: the first deal, or the first item. -/
def hero : Option RetrievedItem := (deals items).head?.or items.head?

/-- `runners`. -/
def runners (hero : RetrievedItem) : List RetrievedItem :=
  items.filter fun it => it.id ≠ hero.id ∧ it.verdict ≠ .suspicious

end Picks

/-! ## The text -/

/-- The sentence about the best value. -/
def heroPart (it : RetrievedItem) : String :=
  "Best value: " ++ it.title ++ " at $" ++ Shop.fixed 2 it.price ++
    (" (" ++ Shop.fixed 0 (it.medianSignal * 100) ++ "% under the same-query median).")

/-- The sentence about the runner-up. -/
def runnerPart (it : RetrievedItem) : String :=
  "Also consider: " ++ it.title ++ " at $" ++ Shop.fixed 2 it.price ++ "."

/-- The sentence about the trap. -/
def trapPart (it : RetrievedItem) : String :=
  "Avoid: " ++ it.title ++ " at $" ++ Shop.fixed 2 it.price ++
    (" — flagged SUSPICIOUS: it reads " ++ Shop.fixed 0 (it.medianSignal * 100) ++
      ("% under median but sits far below its " ++
        "modeled fair price, the signature of a refurb/mislisting rather than " ++
        "a real bargain."))

/-- `answer`, in `_deterministic_answer`. -/
def answerText (items : List RetrievedItem) (hero : RetrievedItem) : String :=
  " ".intercalate
    ([heroPart hero] ++ (runners items hero).head?.toList.map runnerPart ++
      (suspicious items).head?.toList.map trapPart)

/-- `_deterministic_answer`: the query is not read. -/
def deterministicAnswer (lang : Language) (_query : String) (items : List RetrievedItem) :
    RagAnswer :=
  match hero items with
  | none =>
      ⟨"No matching listings were retrieved, so there's nothing to recommend.", [], true, false⟩
  | some hero =>
      { answer := answerText items hero
        sources := [hero.id] ++ (runners items hero).head?.toList.map (fun it => it.id) ++
          (suspicious items).head?.toList.map fun it => it.id
        grounded := isGrounded lang (answerText items hero) items
        usedLlm := false }

theorem deterministicAnswer_of_hero {lang : Language} {query : String}
    {items : List RetrievedItem} {it : RetrievedItem} (h : hero items = some it) :
    deterministicAnswer lang query items =
      ⟨answerText items it, [it.id] ++ (runners items it).head?.toList.map (fun it => it.id) ++
        (suspicious items).head?.toList.map (fun it => it.id),
        isGrounded lang (answerText items it) items, false⟩ := by
  rw [deterministicAnswer, h]

/-! ## What is recommended and what is warned of -/

section Warned

variable {items : List RetrievedItem} {it : RetrievedItem}

theorem hero_mem (h : hero items = some it) : it ∈ items := by
  unfold hero at h
  rcases Option.or_eq_some_iff.1 h with hdeal | ⟨-, hfirst⟩
  · exact (List.mem_filter.1 (List.mem_of_head? hdeal)).1
  · exact List.mem_of_head? hfirst

theorem exists_hero (h : items ≠ []) : ∃ it, hero items = some it := by
  obtain ⟨first, rest, rfl⟩ := List.exists_cons_of_ne_nil h
  unfold hero
  cases (deals (first :: rest)).head? with
  | none => exact ⟨first, rfl⟩
  | some deal => exact ⟨deal, rfl⟩

/-- The best value is suspicious exactly when there is no deal and the first item is. -/
theorem hero_suspicious_iff (h : hero items = some it) :
    it.verdict = .suspicious ↔
      (∀ x ∈ items, x.verdict ≠ .deal) ∧ ∀ x ∈ items.head?, x.verdict = .suspicious := by
  unfold hero at h
  rcases Option.or_eq_some_iff.1 h with hdeal | ⟨hnone, hfirst⟩
  · obtain ⟨hmem, hverdict⟩ := List.mem_filter.1 (List.mem_of_head? hdeal)
    have hverdict : it.verdict = .deal := of_decide_eq_true hverdict
    constructor
    · intro htrap
      rw [htrap] at hverdict
      cases hverdict
    · rintro ⟨hno, -⟩
      exact absurd hverdict (hno it hmem)
  · have hno : ∀ x ∈ items, x.verdict ≠ .deal := by
      intro x hx hverdict
      have hmem : x ∈ deals items := List.mem_filter.2 ⟨hx, decide_eq_true hverdict⟩
      rw [List.head?_eq_none_iff.1 hnone] at hmem
      cases hmem
    rw [hfirst]
    exact ⟨fun htrap => ⟨hno, fun x hx => Option.some.inj hx ▸ htrap⟩, fun hboth => hboth.2 it rfl⟩

/-- A suspicious best value is the first item, which is also the one to avoid. -/
theorem trap_of_hero_suspicious (h : hero items = some it) (htrap : it.verdict = .suspicious) :
    (suspicious items).head? = some it := by
  obtain ⟨hno, -⟩ := (hero_suspicious_iff h).1 htrap
  have hnone : deals items = [] :=
    List.filter_eq_nil_iff.2 fun x hx => by simpa using hno x hx
  rw [hero, hnone, List.head?_nil, Option.none_or] at h
  obtain ⟨rest, rfl⟩ := List.head?_eq_some_iff.1 h
  rw [suspicious, List.filter_cons_of_pos (by simpa using htrap)]
  rfl

/-- What is named after "Best value:" and after "Also consider:" is apart, and is neither
what is named after "Avoid:" nor, when some item is not suspicious, a suspicious item. -/
structure NeverWarned (items : List RetrievedItem) (it : RetrievedItem) : Prop where
  apart : ∀ r ∈ (runners items it).head?, r.id ≠ it.id
  heroTrap : ∀ t ∈ (suspicious items).head?, it.id ≠ t.id
  runnerTrap : ∀ r ∈ (runners items it).head?, ∀ t ∈ (suspicious items).head?, r.id ≠ t.id
  honest : (∃ x ∈ items, x.verdict ≠ .suspicious) →
    it.verdict ≠ .suspicious ∧ ∀ r ∈ (runners items it).head?, r.verdict ≠ .suspicious

theorem mem_runners {r : RetrievedItem} (h : r ∈ (runners items it).head?) :
    r ∈ items ∧ r.id ≠ it.id ∧ r.verdict ≠ .suspicious := by
  obtain ⟨hmem, hrunner⟩ := List.mem_filter.1 (List.mem_of_head? h)
  exact ⟨hmem, of_decide_eq_true hrunner⟩

theorem mem_suspicious {t : RetrievedItem} (h : t ∈ (suspicious items).head?) :
    t ∈ items ∧ t.verdict = .suspicious := by
  obtain ⟨hmem, htrap⟩ := List.mem_filter.1 (List.mem_of_head? h)
  exact ⟨hmem, of_decide_eq_true htrap⟩

/-- Items of different verdicts have different ids. -/
theorem id_ne_of_verdict (hids : (items.map fun x => x.id).Nodup) {x y : RetrievedItem}
    (hx : x ∈ items) (hy : y ∈ items) (h : x.verdict ≠ y.verdict) : x.id ≠ y.id := by
  intro hsame
  exact h (by rw [List.inj_on_of_nodup_map hids hx hy hsame])

/-- The answer recommends nothing it warns of when its best value is not suspicious. -/
theorem neverWarned_iff_hero (hids : (items.map fun x => x.id).Nodup)
    (h : hero items = some it) : NeverWarned items it ↔ it.verdict ≠ .suspicious := by
  constructor
  · intro hnever htrap
    exact hnever.heroTrap it (trap_of_hero_suspicious h htrap) rfl
  · intro hhero
    refine ⟨fun r hr => (mem_runners hr).2.1, ?_, ?_, fun _ =>
      ⟨hhero, fun r hr => (mem_runners hr).2.2⟩⟩
    · intro t ht
      obtain ⟨hmem, htrap⟩ := mem_suspicious ht
      exact id_ne_of_verdict hids (hero_mem h) hmem (by rwa [htrap])
    · intro r hr t ht
      obtain ⟨hmem, htrap⟩ := mem_suspicious ht
      obtain ⟨hrunner, -, hfine⟩ := mem_runners hr
      exact id_ne_of_verdict hids hrunner hmem (by rwa [htrap])

/-- **What it warns of it does not recommend**, exactly when there is a deal or the first
item is not suspicious. Where the warning counts only beside an item that is not suspicious,
lists of suspicious items are fine as well. -/
theorem never_warned_iff (lang : Language) (query : String) (items : List RetrievedItem)
    (hne : items ≠ []) (hids : (items.map fun x => x.id).Nodup) :
    ∃ it, hero items = some it ∧
      (deterministicAnswer lang query items).answer = answerText items it ∧
      (NeverWarned items it ↔
        (∃ x ∈ items, x.verdict = .deal) ∨ ∀ x ∈ items.head?, x.verdict ≠ .suspicious) ∧
      (((∃ x ∈ items, x.verdict ≠ .suspicious) → NeverWarned items it) ↔
        (∃ x ∈ items, x.verdict = .deal) ∨ (∀ x ∈ items.head?, x.verdict ≠ .suspicious) ∨
          ∀ x ∈ items, x.verdict = .suspicious) := by
  obtain ⟨it, hit⟩ := exists_hero hne
  obtain ⟨first, rest, rfl⟩ := List.exists_cons_of_ne_nil hne
  have hgood : NeverWarned (first :: rest) it ↔
      (∃ x ∈ first :: rest, x.verdict = .deal) ∨
        ∀ x ∈ (first :: rest).head?, x.verdict ≠ .suspicious := by
    rw [neverWarned_iff_hero hids hit, ne_eq, hero_suspicious_iff hit, not_and_or]
    refine or_congr ?_ (by simp)
    push Not
    rfl
  refine ⟨it, hit, by rw [deterministicAnswer_of_hero hit], hgood, ?_⟩
  rw [hgood, ← or_assoc, or_comm, imp_iff_not_or]
  simp [or_comm]

end Warned

/-! ## A trap as the best value -/

/-- A trap. -/
def trap : RetrievedItem :=
  { earbuds with id := "t", title := "Sony WH-1000XM5", price := 20, verdict := .suspicious }

/-- An item at the median. -/
def fairPick : RetrievedItem := { earbuds with id := "f", verdict := .fair }

theorem never_warned_iff_trap :
    ∃ it, hero [trap, fairPick] = some it ∧
      (deterministicAnswer plainLanguage "headphones" [trap, fairPick]).answer =
        answerText [trap, fairPick] it ∧
      (NeverWarned [trap, fairPick] it ↔
        (∃ x ∈ [trap, fairPick], x.verdict = .deal) ∨
          ∀ x ∈ [trap, fairPick].head?, x.verdict ≠ .suspicious) ∧
      (((∃ x ∈ [trap, fairPick], x.verdict ≠ .suspicious) → NeverWarned [trap, fairPick] it) ↔
        (∃ x ∈ [trap, fairPick], x.verdict = .deal) ∨
          (∀ x ∈ [trap, fairPick].head?, x.verdict ≠ .suspicious) ∨
            ∀ x ∈ [trap, fairPick], x.verdict = .suspicious) :=
  never_warned_iff plainLanguage "headphones" [trap, fairPick] (by simp) (by decide)

/-- Without a deal the trap in front is named the best value, and is also the one to avoid. -/
theorem trap_recommended :
    hero [trap, fairPick] = some trap ∧ (suspicious [trap, fairPick]).head? = some trap ∧
      ¬ ((∃ x ∈ [trap, fairPick], x.verdict ≠ .suspicious) → NeverWarned [trap, fairPick] trap) := by
  refine ⟨rfl, rfl, fun hnever => ?_⟩
  have hwarned := hnever ⟨fairPick, by simp, by decide⟩
  exact hwarned.heroTrap trap rfl rfl

end DealFinder.Rag
