/-
# The context window

Retrieved deals and the turns of a conversation share one window of tokens. `pack_deals` takes the
deals in rank order as long as they fit, and `compact_history` folds the older turns into one line
and keeps the recent ones. How many tokens a text has is the tokenizer's to say.
-/

import DealFinder.Math.Packing
import DealFinder.Rag.Items
import Mathlib.Data.List.TakeWhile

namespace DealFinder.Agent

open DealFinder.Math DealFinder.Features DealFinder.Rag

variable (unicode : Unicode) (countTokens : String → ℕ)

/-! ## Packing -/

/-- `Packed`. -/
structure Packed where
  included : List RetrievedItem
  dropped : List RetrievedItem
  tokens : ℕ
  budget : ℤ
  deriving DecidableEq

/-- What the line of an item costs: it is the one numbered line of its own context. -/
def lineCost (it : RetrievedItem) : ℕ := countTokens (buildContext [it])

/-- `pack_deals`. -/
def packDeals (items : List RetrievedItem) (budgetTokens : ℤ) : Packed :=
  let packing := pack (lineCost countTokens) budgetTokens items
  { included := packing.included
    dropped := packing.dropped
    tokens := packing.used
    budget := budgetTokens }

/-- The tail is evicted: the included items and behind them the dropped ones are the ranking, the
included ones cost the tokens that are reported, within the budget, and no longer first part of the
ranking would fit. -/
structure EvictsTail (items : List RetrievedItem) (packed : Packed) : Prop where
  ranked : packed.included ++ packed.dropped = items
  tokens_eq : packed.tokens = totalCost (lineCost countTokens) packed.included
  within : (packed.tokens : ℤ) ≤ packed.budget
  longest : ∀ front, front <+: items →
    (totalCost (lineCost countTokens) front : ℤ) ≤ packed.budget → front <+: packed.included

/-- The tail is evicted exactly where no line behind the first misfit is short enough to fit. -/
theorem evictsTail_iff (items : List RetrievedItem) {budgetTokens : ℤ}
    (hbudget : 0 ≤ budgetTokens) :
    EvictsTail countTokens items (packDeals countTokens items budgetTokens) ↔
      NothingFitsBehind (lineCost countTokens) budgetTokens items := by
  have hkept := kept_pack (lineCost countTokens) hbudget items
  rw [← firstPart_pack_iff hbudget]
  constructor
  · rintro ⟨hranked, -, -, hlongest⟩
    exact ⟨hranked, hlongest⟩
  · rintro ⟨hcut, hlongest⟩
    exact ⟨hcut, hkept.used_eq, hkept.within, hlongest⟩

/-- A listing with nothing to it but its name. -/
def listing (title : String) : RetrievedItem where
  id := title
  title := title
  price := 10
  source := "shop"
  category := "other"
  similarity := 1
  verdict := .fair
  medianSignal := 0
  fairPrice := 10
  residualFrac := 0
  reason := ""

theorem evictsTail_iff_lamps :
    EvictsTail String.length [listing "lamp", listing "floor lamp"]
        (packDeals String.length [listing "lamp", listing "floor lamp"] 40) ↔
      NothingFitsBehind (lineCost String.length) 40 [listing "lamp", listing "floor lamp"] :=
  evictsTail_iff String.length _ (by decide)

/-- The best listing is too long, and a worse one takes its place. -/
theorem shorter_line_jumps_ahead :
    packDeals String.length [listing "adjustable floor lamp", listing "lamp"] 40 =
        ⟨[listing "lamp"], [listing "adjustable floor lamp"], 34, 40⟩ ∧
      ¬EvictsTail String.length [listing "adjustable floor lamp", listing "lamp"]
        (packDeals String.length [listing "adjustable floor lamp", listing "lamp"] 40) := by
  have hpacked : packDeals String.length [listing "adjustable floor lamp", listing "lamp"] 40 =
      ⟨[listing "lamp"], [listing "adjustable floor lamp"], 34, 40⟩ := by decide +kernel
  constructor
  · exact hpacked
  · rw [hpacked]
    intro h
    exact absurd h.ranked (by decide)

/-! ## Compaction -/

/-- `_user_intent`: the first line of a turn of the user's, without the mark. -/
def userIntent (turn : String) : String :=
  let line := String.ofList ((strip turn).toList.takeWhile (· ≠ '\n'))
  let lower := unicode.lower line
  if "user:".toList.isPrefixOf lower.toList || "user ".toList.isPrefixOf lower.toList then
    if ':' ∈ line.toList then strip (String.ofList ((line.toList.dropWhile (· ≠ ':')).drop 1))
    else line
  else ""

/-- `Compacted`. -/
structure Compacted where
  text : String
  turnsBefore : ℕ
  turnsKept : ℤ
  tokensBefore : ℕ
  tokensAfter : ℕ

/-- What the user has asked for so far. -/
def intents (old : List String) : List String :=
  (old.filter fun t => userIntent unicode t ≠ "").map (userIntent unicode)

/-- The line into which older turns are folded. -/
def summaryLine (old : List String) : String :=
  "[earlier queries: " ++ " → ".intercalate (intents unicode old) ++ "]"

/-- `compact_history`. -/
def compactHistory (turns : List String) (keepRecent : ℤ) : Compacted :=
  let before := "\n".intercalate turns
  if (turns.length : ℤ) ≤ keepRecent then
    { text := before
      turnsBefore := turns.length
      turnsKept := turns.length
      tokensBefore := countTokens before
      tokensAfter := countTokens before }
  else
    let old := upTo (-keepRecent) turns
    let recent := startingAt (-keepRecent) turns
    let afterText := "\n".intercalate (summaryLine unicode old :: recent)
    { text := afterText
      turnsBefore := turns.length
      turnsKept := keepRecent
      tokensBefore := countTokens before
      tokensAfter := countTokens afterText }

/-- The recent turns are kept as they are, behind one line for all others. -/
def KeepsRecent (turns : List String) (keepRecent : ℤ) (compacted : Compacted) : Prop :=
  if keepRecent < turns.length then
    compacted.text = "\n".intercalate
        (summaryLine unicode (turns.take (turns.length - keepRecent.toNat)) ::
          turns.drop (turns.length - keepRecent.toNat)) ∧
      compacted.turnsKept = keepRecent
  else compacted.text = "\n".intercalate turns ∧ compacted.turnsKept = turns.length

section Lines

variable {unicode}

theorem mem_of_mem_strip {c : Char} {s : String} (h : c ∈ (strip s).toList) : c ∈ s.toList := by
  rw [strip, String.toList_ofList, List.mem_reverse] at h
  have hback := (List.dropWhile_sublist _).mem h
  exact (List.dropWhile_sublist _).mem (List.mem_reverse.1 hback)

/-- An intent is part of one line. -/
theorem newline_not_mem_userIntent (turn : String) : '\n' ∉ (userIntent unicode turn).toList := by
  have hline : '\n' ∉ (strip turn).toList.takeWhile (· ≠ '\n') := by
    intro hmem
    simpa using List.mem_takeWhile_imp hmem
  rw [userIntent]
  split_ifs with huser hcolon
  · intro hmem
    have hrest := mem_of_mem_strip hmem
    rw [String.toList_ofList, String.toList_ofList] at hrest
    exact hline ((List.dropWhile_sublist _).mem (List.mem_of_mem_drop hrest))
  · rw [String.toList_ofList]
    exact hline
  · simp

/-- A line of lines without a break has none. -/
theorem not_mem_intercalate {c : Char} {sep : String} {words : List String}
    (hsep : c ∉ sep.toList) (hwords : ∀ w ∈ words, c ∉ w.toList) :
    c ∉ (sep.intercalate words).toList := by
  intro hmem
  rw [String.toList_intercalate] at hmem
  rcases mem_intercalate hmem with hin | ⟨part, hpart, hin⟩
  · exact hsep hin
  · obtain ⟨w, hw, rfl⟩ := List.mem_map.1 hpart
    exact hwords w hw hin

/-- The summary is one line. -/
theorem newline_not_mem_summaryLine (old : List String) :
    '\n' ∉ (summaryLine unicode old).toList := by
  have hopen : '\n' ∉ "[earlier queries: ".toList := by decide +kernel
  have hsep : '\n' ∉ " → ".toList := by decide +kernel
  have hclose : '\n' ∉ "]".toList := by decide +kernel
  have hintents : ∀ w ∈ intents unicode old, '\n' ∉ w.toList := by
    intro w hw
    obtain ⟨turn, -, rfl⟩ := List.mem_map.1 hw
    exact newline_not_mem_userIntent turn
  have hjoined := not_mem_intercalate hsep hintents
  have hline : summaryLine unicode old =
      "[earlier queries: " ++ " → ".intercalate (intents unicode old) ++ "]" := rfl
  rw [hline, String.toList_append, String.toList_append, List.mem_append, List.mem_append,
    not_or, not_or]
  exact ⟨⟨hopen, hjoined⟩, hclose⟩

/-- Lines are joined by a break. -/
theorem newline_mem_intercalate (first : String) {rest : List String} (h : rest ≠ []) :
    '\n' ∈ ("\n".intercalate (first :: rest)).toList := by
  rw [String.intercalate_cons_of_ne_nil h]
  simp

end Lines

/-- The recent turns are kept as they are exactly if one is to be kept at all, or there is none:
a slice that begins at the end is taken for one that begins at the start. -/
theorem keepsRecent_iff (turns : List String) {keepRecent : ℤ} (h : 0 ≤ keepRecent) :
    KeepsRecent unicode turns keepRecent (compactHistory unicode countTokens turns keepRecent) ↔
      0 < keepRecent ∨ turns = [] := by
  rw [KeepsRecent, compactHistory]
  dsimp only
  rcases lt_or_ge keepRecent (turns.length : ℤ) with hmore | hfew
  · rw [if_pos hmore, if_neg (not_le.2 hmore)]
    rcases h.eq_or_lt with hzero | hpos
    · -- nothing is kept: the code's text goes over several lines, the summary is one
      have hturns : turns ≠ [] := by
        intro hnil
        rw [hnil, ← hzero] at hmore
        exact absurd hmore (by decide)
      subst hzero
      have hall : startingAt (-0) turns = turns := by simp [startingAt]
      have hnone : turns.drop (turns.length - (0 : ℤ).toNat) = [] := by simp
      rw [hall, hnone]
      constructor
      · rintro ⟨htext, -⟩
        have hbreak := newline_mem_intercalate (summaryLine unicode (upTo (-0) turns)) hturns
        dsimp only at htext
        rw [htext, String.intercalate_singleton] at hbreak
        exact absurd hbreak (newline_not_mem_summaryLine _)
      · rintro (hpos | hnil)
        · exact absurd hpos (by decide)
        · exact absurd hnil hturns
    · have hslices := slices_of_pos (n := keepRecent.toNat) (by omega) turns
      rw [Int.toNat_of_nonneg h] at hslices
      rw [hslices.1, hslices.2]
      exact ⟨fun _ => .inl hpos, fun _ => ⟨rfl, rfl⟩⟩
  · rw [if_neg (not_lt.2 hfew), if_pos hfew]
    have hcondition : 0 < keepRecent ∨ turns = [] := by
      rcases h.eq_or_lt with hzero | hpos
      · right
        rw [← hzero] at hfew
        exact List.eq_nil_of_length_eq_zero (by omega)
      · exact .inl hpos
    exact ⟨fun _ => hcondition, fun _ => ⟨rfl, rfl⟩⟩

theorem keepsRecent_iff_two :
    KeepsRecent ascii ["user: tv", "Here are two.", "user: cheaper"] 2
        (compactHistory ascii String.length ["user: tv", "Here are two.", "user: cheaper"] 2) ↔
      (0 : ℤ) < 2 ∨ ["user: tv", "Here are two.", "user: cheaper"] = [] :=
  keepsRecent_iff ascii String.length _ (by decide)

/-- To keep nothing is to keep everything, behind an empty summary. -/
theorem nothing_kept_is_everything :
    (compactHistory ascii String.length ["user: tv", "Here are two."] 0).text =
        "[earlier queries: ]\nuser: tv\nHere are two." ∧
      (compactHistory ascii String.length ["user: tv", "Here are two."] 0).turnsKept = 0 ∧
      ¬KeepsRecent ascii ["user: tv", "Here are two."] 0
        (compactHistory ascii String.length ["user: tv", "Here are two."] 0) := by
  have htext : (compactHistory ascii String.length ["user: tv", "Here are two."] 0).text =
      "[earlier queries: ]\nuser: tv\nHere are two." := by decide +kernel
  have hmeant : "\n".intercalate (summaryLine ascii ["user: tv", "Here are two."] :: []) =
      "[earlier queries: tv]" := by decide +kernel
  constructor
  · exact htext
  constructor
  · rfl
  · rintro ⟨hkept, -⟩
    rw [htext] at hkept
    exact absurd (hkept.trans hmeant) (by decide)

end DealFinder.Agent
