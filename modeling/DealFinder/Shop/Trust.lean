/-
# The order of trust

`score_offers` sorts by a rounded percentage, less one for a suspicious row and less a
half for an overpriced one. The thresholds of the verdicts keep the classes apart: only a
deal at 15% and a fair row that is rounded up to it can have one value, and these stay in
the order of their prices, in which the deal comes first (`ordered_by_trust`).
-/

import DealFinder.Shop.Peers
import Mathlib.Data.List.Flatten

namespace DealFinder.Shop

open DealFinder.Math

/-! ## The signal and the value of a row -/

section Row

variable {services : Services} {median m rf : ℚ} {r : Listing} {peer : Option ℚ} {v : Verdict}

/-- The market signals under a verdict. -/
def SignalIn (m : ℚ) : Verdict → Prop
  | .deal => 15 / 100 ≤ m
  | .suspicious => 15 / 100 ≤ m
  | .fair => 0 ≤ m ∧ m < 15 / 100
  | .overpriced => m < 0

/-- The values under a verdict. -/
def ValueIn (x : ℚ) : Verdict → Prop
  | .deal => 15 / 100 ≤ x
  | .suspicious => x ≤ 0
  | .fair => 0 ≤ x ∧ x ≤ 15 / 100
  | .overpriced => x ≤ -(1 / 2)

theorem signalIn_renderBadge (m rf : ℚ) : SignalIn m (renderBadge m rf) := by
  unfold renderBadge
  split_ifs with hsuspicious hdeal hover
  · exact hsuspicious.1
  · exact hdeal
  · exact hover
  · exact ⟨not_lt.1 hover, not_le.1 hdeal⟩

theorem marketSignal_lt_one (median : ℚ) {price : ℚ} (hprice : 0 < price) :
    marketSignal median price < 1 := by
  unfold marketSignal medianSignal
  split_ifs with hzero hneg
  · norm_num
  · norm_num
  · rw [div_lt_one (not_le.1 hneg)]
    linarith

/-- The cheaper row has the larger signal. -/
theorem marketSignal_anti {price price' : ℚ} (h : price ≤ price') :
    marketSignal median price' ≤ marketSignal median price := by
  unfold marketSignal medianSignal
  split_ifs with hzero hneg
  · exact le_rfl
  · exact le_rfl
  · exact div_le_div_of_nonneg_right (by linarith) (not_le.1 hneg).le

/-- A verdict goes by the market signal, which is shown rounded. -/
theorem scoreRow_verdict (h : (scoreRow services median r peer).verdict = some v) :
    SignalIn (marketSignal median r.price) v ∧
      (scoreRow services median r peer).pctUnderMedian =
        some (roundTo 1 (marketSignal median r.price * 100)) := by
  by_cases hrated : mayVerdict r.source = true
  · obtain ⟨hverdict, hpct, -, -⟩ := scoreRow_of_rated services median peer hrated
    rw [hverdict] at h
    obtain ⟨fair, -, rfl⟩ := Option.map_eq_some_iff.1 h
    exact ⟨signalIn_renderBadge _ _, hpct⟩
  · rw [scoreRow_of_unrated hrated] at h
    cases h

/-- Where the verdicts put the value of a row. -/
theorem value_scoreRow (hprice : 0 < r.price)
    (h : (scoreRow services median r peer).verdict = some v) :
    ValueIn (value (scoreRow services median r peer)) v := by
  obtain ⟨hsignal, hpct⟩ := scoreRow_verdict h
  have hlt := marketSignal_lt_one median hprice
  -- Rounding keeps the bounds 0, 15 and 100, which have no decimals.
  have hzero : roundTo 1 0 = 0 := roundTo_of_eq (n := 0) (by norm_num)
  have hfifteen : roundTo 1 15 = 15 := roundTo_of_eq (n := 150) (by norm_num)
  have hhundred : roundTo 1 100 = 100 := roundTo_of_eq (n := 1000) (by norm_num)
  generalize marketSignal median r.price = m at hsignal hlt hpct
  unfold value
  rw [h, hpct, Option.getD_some]
  cases v with
  | deal =>
      have hlow : 15 / 100 ≤ m := hsignal
      have hround := roundTo_mono 1 (show 15 ≤ m * 100 by linarith)
      show 15 / 100 ≤ roundTo 1 (m * 100) / 100
      linarith
  | suspicious =>
      have hround := roundTo_mono 1 (show m * 100 ≤ 100 by linarith)
      show roundTo 1 (m * 100) / 100 - 1 ≤ 0
      linarith
  | fair =>
      have hlow := roundTo_mono 1 (show 0 ≤ m * 100 by linarith [hsignal.1])
      have hhigh := roundTo_mono 1 (show m * 100 ≤ 15 by linarith [hsignal.2])
      constructor
      · show 0 ≤ roundTo 1 (m * 100) / 100
        linarith
      · show roundTo 1 (m * 100) / 100 ≤ 15 / 100
        linarith
  | overpriced =>
      have hhigh : m < 0 := hsignal
      have hround := roundTo_mono 1 (show m * 100 ≤ 0 by linarith)
      show roundTo 1 (m * 100) / 100 - 1 / 2 ≤ -(1 / 2)
      linarith

end Row

/-! ## The order of the result -/

/-- A verdict that is to be shown before another: a deal before every other, and a fair
price before an overpriced one. -/
def outranks : Verdict → Verdict → Bool
  | .deal, .deal => false
  | .deal, _ => true
  | .fair, .overpriced => true
  | _, _ => false

/-- A result shows a row: it is the row, but for its price signals. -/
def Shows (services : Services) (r : Listing) (x : Scored) : Prop :=
  { x with
    verdict := none, pctUnderMedian := none, fair := none, residualFrac := none, basis := none } =
    unrated services r x.reason (services.guessCategory r.title)

section Order

variable {services : Services} {median : ℚ}

/-- No verdict of the second is to be shown before one of the first. -/
def InTrust (x y : Scored) : Prop :=
  ∀ v w, x.verdict = some v → y.verdict = some w → outranks w v = false

/-- A verdict that is to be shown first has the larger value, or else it is a deal whose
value a fair row has too. -/
theorem value_of_outranks {r s : Listing} {peer peer' : Option ℚ} {v w : Verdict}
    (hr : 0 < r.price) (hs : 0 < s.price)
    (hv : (scoreRow services median r peer).verdict = some v)
    (hw : (scoreRow services median s peer').verdict = some w) (h : outranks v w = true) :
    value (scoreRow services median s peer') < value (scoreRow services median r peer) ∨
      value (scoreRow services median s peer') ≤ value (scoreRow services median r peer) ∧
        v = .deal ∧ w = .fair := by
  have hvalue := value_scoreRow hr hv
  have hvalue' := value_scoreRow hs hw
  cases v with
  | deal =>
      have hlow : 15 / 100 ≤ value (scoreRow services median r peer) := hvalue
      cases w with
      | deal => cases h
      | fair => exact Or.inr ⟨hvalue'.2.trans hlow, rfl, rfl⟩
      | suspicious => exact Or.inl (lt_of_le_of_lt hvalue' (by linarith))
      | overpriced => exact Or.inl (lt_of_le_of_lt hvalue' (by linarith))
  | fair =>
      have hlow : 0 ≤ value (scoreRow services median r peer) := hvalue.1
      cases w with
      | overpriced => exact Or.inl (lt_of_le_of_lt hvalue' (by linarith))
      | deal => cases h
      | fair => cases h
      | suspicious => cases h
  | suspicious => cases h
  | overpriced => cases h

/-- Of two rows in the order of their prices, the sort leaves none after a verdict that it
is to be shown before. -/
theorem inTrust_of_le {r s : Listing} {peer peer' : Option ℚ} (hr : 0 < r.price)
    (hle : r.price ≤ s.price) :
    (value (scoreRow services median s peer') ≤ value (scoreRow services median r peer) →
        InTrust (scoreRow services median r peer) (scoreRow services median s peer')) ∧
      (¬ value (scoreRow services median s peer') ≤ value (scoreRow services median r peer) →
        InTrust (scoreRow services median s peer') (scoreRow services median r peer)) := by
  have hs := hr.trans_le hle
  constructor
  · intro hvalue v w hv hw
    by_contra h
    rcases value_of_outranks hs hr hw hv (Bool.not_eq_false _ ▸ h) with hlt | ⟨-, rfl, rfl⟩
    · exact absurd hvalue (not_le.2 hlt)
    · -- With one value the deal is the cheaper row, so it stands first already.
      have hlow := (scoreRow_verdict hv).1.2
      have hhigh : 15 / 100 ≤ marketSignal median s.price := (scoreRow_verdict hw).1
      exact absurd (hhigh.trans (marketSignal_anti hle)) (not_le.2 hlow)
  · intro hvalue v w hv hw
    by_contra h
    rcases value_of_outranks hr hs hw hv (Bool.not_eq_false _ ▸ h) with hlt | ⟨hle', -, -⟩
    · exact hvalue hlt.le
    · exact hvalue hle'

theorem shows_scoreRow (median : ℚ) (r : Listing) (peer : Option ℚ) :
    Shows services r (scoreRow services median r peer) := by
  by_cases hrated : mayVerdict r.source = true
  · rw [Shows, scoreRow, if_pos hrated]
    rfl
  · rw [scoreRow_of_unrated hrated]
    rfl

theorem shows_unrated (r : Listing) (reason : String) :
    Shows services r (unrated services r reason (services.guessCategory r.title)) := rfl

/-- The results show the rows that may be mixed, in some order. -/
theorem exists_shown (services : Services) (mode : Mode) (offers : List Offer) (median : ℚ) :
    ∃ rows, rows.Perm (mixedRows offers) ∧
      List.Forall₂ (Shows services) rows (scoreOffers services mode offers median).1 := by
  cases mode with
  | check =>
      refine ⟨_, List.Perm.refl _, ?_⟩
      exact List.forall₂_map_right_iff.2 (List.forall₂_same.2 fun r _ => shows_unrated r _)
  | live =>
      rw [scoreOffers_live, scoreLive_eq]
      generalize mixedRows offers = rows
      have hbefore : List.Forall₂ (Shows services) rows (rows.zipIdx.map fun entry =>
          scoreRow services median entry.1 (peerEstimate services rows entry.2)) := by
        have hfirst : rows.zipIdx.map Prod.fst = rows := List.zipIdx_map_fst 0 rows
        refine Eq.mp (congrArg (fun l => List.Forall₂ (Shows services) l _) hfirst) ?_
        rw [List.forall₂_map_left_iff, List.forall₂_map_right_iff]
        exact List.forall₂_same.2 fun entry _ => shows_scoreRow median entry.1 _
      obtain ⟨shown, hshown, hperm⟩ :=
        List.perm_comp_forall₂ (List.perm_insertionSort (fun x y => value y ≤ value x) _)
          hbefore.flip
      exact ⟨shown, hperm, hshown.flip⟩

/-- The results stand in trust. -/
theorem pairwise_inTrust (services : Services) (mode : Mode) {offers : List Offer} (median : ℚ)
    (hsorted : offers.Pairwise fun r s => r.price ≤ s.price) (hpos : ∀ r ∈ offers, 0 < r.price) :
    (scoreOffers services mode offers median).1.Pairwise InTrust := by
  cases mode with
  | check =>
      refine List.pairwise_map.2 (List.pairwise_of_forall fun r s v w hv => ?_)
      cases hv
  | live =>
      have hrows : (mixedRows offers).Pairwise fun r s => 0 < r.price ∧ r.price ≤ s.price := by
        refine List.Pairwise.filter _ (List.pairwise_map.2 ?_)
        exact hsorted.imp_of_mem fun hr _ hle => ⟨hpos _ hr, hle⟩
      rw [scoreOffers_live, scoreLive_eq]
      generalize mixedRows offers = rows at hrows
      have : IsTrans Scored fun x y => value y ≤ value x := ⟨fun x y z hxy hyz => hyz.trans hxy⟩
      have : Std.Total fun x y : Scored => value y ≤ value x := ⟨fun x y => le_total _ _⟩
      apply pairwise_insertionSort_of
      rw [List.pairwise_map]
      have hfirst : rows.zipIdx.map Prod.fst = rows := List.zipIdx_map_fst 0 rows
      rw [← hfirst, List.pairwise_map] at hrows
      exact hrows.imp fun h => inTrust_of_le h.1 h.2

/-- **In the order of trust**: the results are the rows that may be mixed, and whatever the
models and the peers say, no verdict stands after one that it is to be shown before. -/
theorem ordered_by_trust (services : Services) (mode : Mode) (offers : List Offer) (median : ℚ)
    (hsorted : offers.Pairwise fun r s => r.price ≤ s.price) (hpos : ∀ r ∈ offers, 0 < r.price) :
    (∃ rows, rows.Perm (mixedRows offers) ∧
      List.Forall₂ (Shows services) rows (scoreOffers services mode offers median).1) ∧
    ∀ (i j : ℕ) (x y : Scored) (v w : Verdict),
      (scoreOffers services mode offers median).1[i]? = some x →
      (scoreOffers services mode offers median).1[j]? = some y →
      x.verdict = some v → y.verdict = some w → outranks v w = true → i < j := by
  refine ⟨exists_shown services mode offers median, ?_⟩
  intro i j x y v w hx hy hv hw houtranks
  obtain ⟨hi, rfl⟩ := List.getElem?_eq_some_iff.1 hx
  obtain ⟨hj, rfl⟩ := List.getElem?_eq_some_iff.1 hy
  have htrust := pairwise_inTrust services mode median hsorted hpos
  rcases lt_trichotomy i j with hlt | heq | hgt
  · exact hlt
  · subst heq
    obtain rfl := Option.some.inj (hv.symm.trans hw)
    exact absurd houtranks (by cases v <;> simp [outranks])
  · have hnot := List.pairwise_iff_getElem.1 htrust j i hj hi hgt w v hw hv
    exact absurd (hnot.symm.trans houtranks) (by simp)

end Order

/-- A deal at 15% and a fair row rounded up to it, in a shop whose peers agree. -/
def cheapFirst : List Offer :=
  [⟨⟨row "BestBuy" "lamp" 85, "now"⟩, 0⟩, ⟨⟨row "BestBuy" "lamp" (8504 / 100), "now"⟩, 0⟩,
    ⟨⟨row "BestBuy" "lamp" 100, "now"⟩, 0⟩]

theorem ordered_by_trust_lamps :
    cheapFirst.Pairwise (fun r s => r.price ≤ s.price) ∧ (∀ r ∈ cheapFirst, 0 < r.price) ∧
    ∀ (i j : ℕ) (x y : Scored) (v w : Verdict),
      (scoreOffers plainServices .live cheapFirst 100).1[i]? = some x →
      (scoreOffers plainServices .live cheapFirst 100).1[j]? = some y →
      x.verdict = some v → y.verdict = some w → outranks v w = true → i < j :=
  have hsorted : cheapFirst.Pairwise fun r s => r.price ≤ s.price := by decide +kernel
  have hpos : ∀ r ∈ cheapFirst, 0 < r.price := by decide +kernel
  ⟨hsorted, hpos, (ordered_by_trust plainServices .live cheapFirst 100 hsorted hpos).2⟩

end DealFinder.Shop
