/-
# Check a deal

`check_deal` rates one price against the fair price of the category's model. A linear
model has outputs below zero, and there the residual counts as nothing, so the price is
called fair. With a fair price above zero the verdict and its reason are true, and only
then (`truthful_iff`). The scorer of the offers reads the same residual.
-/

import DealFinder.Shop.Features
import DealFinder.Shop.Peers

namespace DealFinder.Shop

open DealFinder.Math DealFinder.Features

/-! ## The category of a title -/

section Snapshot

variable (unicode : Unicode)

/-- `_words`. -/
def words (text : String) : Finset (List Char) :=
  ((findTokens (unicode.lower text)).filter fun w => 2 ≤ w.length).toFinset

/-- The body of the loop of `_category_from_snapshot`. -/
def closer (want : Finset (List Char)) (best : Option String × ℚ) (p : Features.Product) :
    Option String × ℚ :=
  let s : ℚ := (want ∩ words unicode p.title).card / want.card
  if best.2 < s then (some p.category, s) else best

/-- `_category_from_snapshot`. -/
def categoryFromSnapshot (catalog : List Features.Product) (title : String) : Option String :=
  let want := words unicode title
  if want.card < 2 then none
  else
    let (best, score) := catalog.foldl (closer unicode want) (none, 0)
    if 75 / 100 ≤ score then best else none

end Snapshot

/-! ## The verdict and its reason -/

/-- What `check_deal` says of a price. -/
inductive Remark
  | unknown
  | farBelow (n : ℤ)
  | below (n : ℤ)
  | above (n : ℤ)
  | within

/-- The reason as it is shown, with the fair price. -/
def Remark.text (fair : ℚ) : Remark → String
  | unknown => "We can't estimate a fair price for this kind of product yet."
  | farBelow n =>
      toString n ++ "% below our fair price for this model (~$" ++ fixed 0 fair ++
        "). That is too far below to be real. " ++
        "It may be used, an accessory, or a mislisting."
  | below n =>
      toString n ++ "% below our fair price for this model (~$" ++ fixed 0 fair ++ ")."
  | above n =>
      toString n ++ "% above our fair price for this model (~$" ++ fixed 0 fair ++ ")."
  | within => "Within 15% of our fair price for this model (~$" ++ fixed 0 fair ++ ")."

/-- The answer of `check_deal`. -/
structure Checked where
  title : String
  price : ℚ
  category : Option String
  fair : Option ℚ
  residualFrac : Option ℚ
  verdict : Option Verdict
  basis : Option Basis
  reason : String
  deriving DecidableEq

/-- The verdict on a residual and the remark that goes with it. -/
def rateResidual (rf : ℚ) : Verdict × Remark :=
  let n := roundHalfEven (|rf| * 100)
  if suspiciousResidualFrac ≤ rf then (.suspicious, .farBelow n)
  else if dealMedianFrac ≤ rf then (.deal, .below n)
  else if rf ≤ -dealMedianFrac then (.overpriced, .above n)
  else (.fair, .within)

/-- `check_deal`. -/
def checkDeal (unicode : Unicode) (services : Services) (catalog : List Features.Product)
    (title : String) (price : ℚ) : Checked :=
  match fairFor unicode services (categoryFromSnapshot unicode catalog) title with
  | (cat, none) => ⟨title, price, cat, none, none, none, none, Remark.unknown.text 0⟩
  | (cat, some fair) =>
      let rf := residualFraction price fair
      let (verdict, remark) := rateResidual rf
      ⟨title, price, cat, some (roundTo 2 fair), some (roundTo 3 rf), some verdict, some .model,
        remark.text fair⟩

/-! ## The truth of an answer -/

/-- A number of percent is that part of the fair price, to the nearest percent. -/
def IsPercent (n : ℤ) (gap fair : ℚ) : Prop := |gap * 100 - n * fair| ≤ fair / 2

/-- What a remark says is so. -/
def Remark.Holds (price fair : ℚ) : Remark → Prop
  | unknown => False
  | farBelow n => IsPercent n (fair - price) fair ∧ price ≤ 30 / 100 * fair
  | below n => IsPercent n (fair - price) fair
  | above n => IsPercent n (price - fair) fair
  | within => |price - fair| < 15 / 100 * fair

/-- The verdict is the one the prices call for, and the reason is true of them. -/
structure Truthful (price fair : ℚ) (x : Checked) : Prop where
  isSuspicious : x.verdict = some .suspicious ↔ price ≤ 30 / 100 * fair
  isDeal : x.verdict = some .deal ↔ 30 / 100 * fair < price ∧ price ≤ 85 / 100 * fair
  isOverpriced : x.verdict = some .overpriced ↔ 115 / 100 * fair ≤ price
  isFair : x.verdict = some .fair ↔ |price - fair| < 15 / 100 * fair
  reason : ∃ remark : Remark, x.reason = remark.text fair ∧ remark.Holds price fair

section Residual

variable {price fair frac : ℚ}

theorem residualFraction_of_nonpos (h : fair ≤ 0) : residualFraction price fair = 0 := if_pos h

theorem residualFraction_mul (h : 0 < fair) :
    residualFraction price fair * fair = fair - price := by
  rw [residualFraction, if_neg (not_le.2 h), div_mul_cancel₀ _ h.ne']

/-- Over a fair price above zero, a bound on the residual is one on the price. -/
theorem le_residualFraction_iff (h : 0 < fair) :
    frac ≤ residualFraction price fair ↔ price ≤ (1 - frac) * fair := by
  rw [← mul_le_mul_iff_left₀ h, residualFraction_mul h, sub_mul, one_mul]
  exact ⟨fun hle => by linarith, fun hle => by linarith⟩

theorem residualFraction_le_iff (h : 0 < fair) :
    residualFraction price fair ≤ frac ↔ (1 - frac) * fair ≤ price := by
  rw [← mul_le_mul_iff_left₀ h, residualFraction_mul h, sub_mul, one_mul]
  exact ⟨fun hle => by linarith, fun hle => by linarith⟩

/-- The percentage shown is that of the gap. -/
theorem isPercent_roundHalfEven {gap : ℚ} (h : 0 < fair)
    (hgap : |residualFraction price fair| * fair = gap) :
    IsPercent (roundHalfEven (|residualFraction price fair| * 100)) gap fair := by
  have hround := abs_sub_roundHalfEven_le (|residualFraction price fair| * 100)
  have hscaled := mul_le_mul_of_nonneg_right hround h.le
  rw [← abs_of_pos h, ← abs_mul, abs_of_pos h] at hscaled
  have hsame : (|residualFraction price fair| * 100 -
      roundHalfEven (|residualFraction price fair| * 100)) * fair =
        gap * 100 - roundHalfEven (|residualFraction price fair| * 100) * fair := by
    rw [← hgap]
    ring
  rw [IsPercent, ← hsame]
  linarith

end Residual

/-! ## When an answer is true -/

section Answer

variable {unicode : Unicode} {services : Services} {catalog : List Features.Product}
  {title : String} {price fair : ℚ}

/-- The model's fair price of a title, as `_fair_for` has it. -/
def checkedFair (unicode : Unicode) (services : Services) (catalog : List Features.Product)
    (title : String) : Option ℚ :=
  (fairFor unicode services (categoryFromSnapshot unicode catalog) title).2

theorem checkDeal_of_fair (price : ℚ) (h : checkedFair unicode services catalog title = some fair) :
    (checkDeal unicode services catalog title price).verdict =
        some (rateResidual (residualFraction price fair)).1 ∧
      (checkDeal unicode services catalog title price).reason =
        (rateResidual (residualFraction price fair)).2.text fair ∧
      (checkDeal unicode services catalog title price).basis = some .model := by
  unfold checkedFair at h
  unfold checkDeal
  generalize fairFor unicode services (categoryFromSnapshot unicode catalog) title = found at h ⊢
  obtain ⟨cat, answer⟩ := found
  cases h
  exact ⟨rfl, rfl, rfl⟩

/-- Where the price stands against a fair price above zero, and what is said of it. -/
theorem rateResidual_cases (price : ℚ) (h : 0 < fair) :
    (price ≤ 30 / 100 * fair ∧ rateResidual (residualFraction price fair) =
        (.suspicious, .farBelow (roundHalfEven (|residualFraction price fair| * 100)))) ∨
      ((30 / 100 * fair < price ∧ price ≤ 85 / 100 * fair) ∧
        rateResidual (residualFraction price fair) =
          (.deal, .below (roundHalfEven (|residualFraction price fair| * 100)))) ∨
      (115 / 100 * fair ≤ price ∧ rateResidual (residualFraction price fair) =
        (.overpriced, .above (roundHalfEven (|residualFraction price fair| * 100)))) ∨
      ((85 / 100 * fair < price ∧ price < 115 / 100 * fair) ∧
        rateResidual (residualFraction price fair) = (.fair, .within)) := by
  have hfar : suspiciousResidualFrac ≤ residualFraction price fair ↔ price ≤ 30 / 100 * fair := by
    rw [le_residualFraction_iff h, suspiciousResidualFrac]
    norm_num
  have hbelow : dealMedianFrac ≤ residualFraction price fair ↔ price ≤ 85 / 100 * fair := by
    rw [le_residualFraction_iff h, dealMedianFrac]
    norm_num
  have habove : residualFraction price fair ≤ -dealMedianFrac ↔ 115 / 100 * fair ≤ price := by
    rw [residualFraction_le_iff h, dealMedianFrac]
    norm_num
  unfold rateResidual
  simp only [hfar, hbelow, habove]
  split_ifs with hone htwo hthree
  · exact Or.inl ⟨hone, rfl⟩
  · exact Or.inr (Or.inl ⟨⟨not_le.1 hone, htwo⟩, rfl⟩)
  · exact Or.inr (Or.inr (Or.inl ⟨hthree, rfl⟩))
  · exact Or.inr (Or.inr (Or.inr ⟨⟨not_le.1 htwo, not_le.1 hthree⟩, rfl⟩))

/-- What is said of a price against a fair price above zero is so. -/
theorem remark_holds (price : ℚ) (h : 0 < fair) :
    (rateResidual (residualFraction price fair)).2.Holds price fair := by
  have hgap : |residualFraction price fair| * fair = |fair - price| := by
    rw [← residualFraction_mul h, abs_mul, abs_of_pos h]
  rcases rateResidual_cases price h with
    ⟨hprice, hrate⟩ | ⟨⟨-, hprice⟩, hrate⟩ | ⟨hprice, hrate⟩ | ⟨⟨hlow, hhigh⟩, hrate⟩
  · rw [hrate]
    exact ⟨isPercent_roundHalfEven h (hgap.trans (abs_of_nonneg (by linarith))), hprice⟩
  · rw [hrate]
    exact isPercent_roundHalfEven h (hgap.trans (abs_of_nonneg (by linarith)))
  · rw [hrate]
    refine isPercent_roundHalfEven h (hgap.trans ?_)
    rw [abs_sub_comm]
    exact abs_of_nonneg (by linarith)
  · rw [hrate]
    exact abs_lt.2 ⟨by linarith, by linarith⟩

theorem truthful_of_pos (price : ℚ) (hfair : checkedFair unicode services catalog title = some fair)
    (h : 0 < fair) : Truthful price fair (checkDeal unicode services catalog title price) := by
  obtain ⟨hverdict, hreason, -⟩ := checkDeal_of_fair price hfair
  have hband : |price - fair| < 15 / 100 * fair ↔
      85 / 100 * fair < price ∧ price < 115 / 100 * fair := by
    rw [abs_lt]
    constructor
    · rintro ⟨hlow, hhigh⟩
      exact ⟨by linarith, by linarith⟩
    · rintro ⟨hlow, hhigh⟩
      exact ⟨by linarith, by linarith⟩
  have hsome : ∀ v w : Verdict, (some v = some w) = (v = w) := fun v w => Option.some.injEq v w
  refine ⟨?_, ?_, ?_, ?_, _, hreason, remark_holds price h⟩
  -- Each verdict against each place of the price: the two agree on the diagonal alone.
  all_goals
    rw [hverdict, hsome]
    rcases rateResidual_cases price h with
      ⟨hprice, hrate⟩ | ⟨hprice, hrate⟩ | ⟨hprice, hrate⟩ | ⟨hprice, hrate⟩
  all_goals
    rw [hrate]
    simp only [reduceCtorEq, hband, true_iff, false_iff, not_and_or, not_le, not_lt]
    grind

/-- A fair price that is not above zero makes the price fair, which it is not. -/
theorem not_truthful_of_nonpos
    (hfair : checkedFair unicode services catalog title = some fair) (h : fair ≤ 0) :
    ¬ Truthful price fair (checkDeal unicode services catalog title price) := by
  intro htrue
  obtain ⟨hverdict, -⟩ := checkDeal_of_fair price hfair
  rw [residualFraction_of_nonpos h] at hverdict
  have hcalled : (rateResidual 0).1 = .fair := by decide +kernel
  rw [hcalled] at hverdict
  have hband := htrue.isFair.1 hverdict
  have habs := abs_nonneg (price - fair)
  linarith

end Answer

/-! ## The scorer of the offers -/

section Badges

variable {services : Services} {median : ℚ} {r : Listing} {peer : Option ℚ}

/-- The fair price that the category's model has for a title, in `score_offers`. -/
def modelFair (services : Services) (title : String) : Option ℚ :=
  (services.guessCategory title).bind fun category =>
    (services.models category).map fun model => model (featurize services category title)

/-- A verdict for the shopper rests on a fair price above zero. -/
def RestsOnPositive (services : Services) (x : Scored) : Prop :=
  x.basis = some .model → x.verdict = some .deal ∨ x.verdict = some .fair →
    ∃ fair, modelFair services x.title = some fair ∧ 0 < fair

theorem fairPrice_of_modelFair {fair : ℚ} (h : modelFair services r.title = some fair) :
    fairPrice services r peer = some (fair, .model) := by
  unfold modelFair at h
  rw [fairPrice, h]

theorem modelFair_of_basis (h : (scoreRow services median r peer).basis = some .model) :
    mayVerdict r.source = true ∧ ∃ fair, modelFair services r.title = some fair := by
  by_cases hrated : mayVerdict r.source = true
  · refine ⟨hrated, ?_⟩
    obtain ⟨-, -, -, hbasis⟩ := scoreRow_of_rated services median peer hrated
    cases hfair : modelFair services r.title with
    | some fair => exact ⟨fair, rfl⟩
    | none =>
        have hpeers : fairPrice services r peer =
            (peer.filter fun fair => 0 < fair).map fun fair => (fair, .peers) := by
          unfold modelFair at hfair
          rw [fairPrice, hfair]
        rw [hbasis, hpeers, Option.map_map] at h
        obtain ⟨fair, -, hpeer⟩ := Option.map_eq_some_iff.1 h
        cases hpeer
  · rw [scoreRow_of_unrated hrated] at h
    cases h

theorem title_scoreRow : (scoreRow services median r peer).title = r.title := by
  by_cases hrated : mayVerdict r.source = true
  · rw [scoreRow, if_pos hrated]
    rfl
  · rw [scoreRow_of_unrated hrated]
    rfl

/-- Against a residual of nothing a price is a deal or fair unless it is above the median. -/
theorem renderBadge_zero_iff (m : ℚ) :
    renderBadge m 0 = .deal ∨ renderBadge m 0 = .fair ↔ 0 ≤ m := by
  have hnever : ¬ (dealMedianFrac ≤ m ∧ suspiciousResidualFrac ≤ 0) := by
    rintro ⟨-, h⟩
    exact absurd h (by norm_num [suspiciousResidualFrac])
  rw [renderBadge, if_neg hnever]
  split_ifs with hdeal hover
  · exact iff_of_true (Or.inl rfl) (le_trans (by norm_num [dealMedianFrac]) hdeal)
  · exact iff_of_false (by simp) (not_le.2 hover)
  · exact iff_of_true (Or.inr rfl) (not_lt.1 hover)

theorem marketSignal_nonneg_iff {price : ℚ} :
    0 ≤ marketSignal median price ↔ ¬ (0 < median ∧ median < price) := by
  unfold marketSignal medianSignal
  split_ifs with hzero hneg
  · simp [hzero]
  · exact iff_of_true le_rfl fun h => absurd h.1 (not_lt.2 hneg)
  · have hpos : 0 < median := not_le.1 hneg
    rw [le_div_iff₀ hpos, zero_mul, sub_nonneg, not_and, not_lt]
    exact ⟨fun h _ => h, fun h => h hpos⟩

/-- The row of an offer rests on a fair price above zero when the model has no other, or
when the offer costs more than the median. -/
theorem restsOnPositive_scoreRow_iff :
    RestsOnPositive services (scoreRow services median r peer) ↔
      (mayVerdict r.source = true → ∀ fair, modelFair services r.title = some fair →
        0 < fair ∨ (0 < median ∧ median < r.price)) := by
  rw [RestsOnPositive, title_scoreRow]
  constructor
  · intro hrests hrated fair hfair
    by_contra hbad
    obtain ⟨hnonpos, hcheap⟩ := not_or.1 hbad
    obtain ⟨hverdict, -, -, hbasis⟩ := scoreRow_of_rated services median peer hrated
    rw [fairPrice_of_modelFair hfair] at hverdict hbasis
    rw [Option.map_some, residualFraction_of_nonpos (not_lt.1 hnonpos)] at hverdict
    have hgood := (renderBadge_zero_iff _).2 (marketSignal_nonneg_iff.2 hcheap)
    rw [hbasis, hverdict, hfair] at hrests
    obtain ⟨other, hsame, hpos⟩ := hrests rfl (hgood.imp (congrArg some) (congrArg some))
    exact hnonpos (Option.some.inj hsame ▸ hpos)
  · intro hrows hbasis hgood
    obtain ⟨hrated, fair, hfair⟩ := modelFair_of_basis hbasis
    refine ⟨fair, hfair, ?_⟩
    by_contra hnonpos
    have hover := (hrows hrated fair hfair).resolve_left hnonpos
    obtain ⟨hverdict, -, -, -⟩ := scoreRow_of_rated services median peer hrated
    rw [fairPrice_of_modelFair hfair, Option.map_some,
      residualFraction_of_nonpos (not_lt.1 hnonpos)] at hverdict
    rw [hverdict, Option.some.injEq, Option.some.injEq, renderBadge_zero_iff,
      marketSignal_nonneg_iff] at hgood
    exact hgood hover

theorem restsOnPositive_scoreOffers_iff (services : Services) (mode : Mode) (offers : List Offer)
    (median : ℚ) :
    (∀ x ∈ (scoreOffers services mode offers median).1, RestsOnPositive services x) ↔
      (mode = .check ∨ ∀ r ∈ mixedRows offers, mayVerdict r.source = true →
        ∀ fair, modelFair services r.title = some fair →
          0 < fair ∨ (0 < median ∧ median < r.price)) := by
  cases mode with
  | check =>
      apply iff_of_true _ (Or.inl rfl)
      intro x hx hbasis
      obtain ⟨r, -, rfl⟩ := List.mem_map.1 hx
      cases hbasis
  | live =>
      rw [scoreOffers_live, or_iff_right (by simp)]
      constructor
      · intro hall r hr
        obtain ⟨i, hi⟩ := List.mem_iff_getElem?.1 hr
        exact restsOnPositive_scoreRow_iff.1 (hall _ (mem_scoreLive.2 ⟨i, r, hi, rfl⟩))
      · intro hrows x hx
        obtain ⟨i, r, hr, rfl⟩ := mem_scoreLive.1 hx
        exact restsOnPositive_scoreRow_iff.2 (hrows r (List.mem_of_getElem? hr))

end Badges

/-- **Check a deal tells the truth about a fair price above zero.** For every title and every
price, the verdict and the reason are true exactly when the model's fair price is above zero.
And `score_offers` calls no offer a deal or fair by a fair price that is not, exactly when
in live mode each rated row has a positive one or costs more than the median. -/
theorem truthful_iff (unicode : Unicode) (services : Services) (catalog : List Features.Product) :
    (∀ (title : String) (price : ℚ), 0 < price →
      ∀ fair, checkedFair unicode services catalog title = some fair →
        (Truthful price fair (checkDeal unicode services catalog title price) ↔ 0 < fair)) ∧
    ∀ (mode : Mode) (offers : List Offer) (median : ℚ),
      (∀ x ∈ (scoreOffers services mode offers median).1, RestsOnPositive services x) ↔
        (mode = .check ∨ ∀ r ∈ mixedRows offers, mayVerdict r.source = true →
          ∀ fair, modelFair services r.title = some fair →
            0 < fair ∨ (0 < median ∧ median < r.price)) := by
  refine ⟨?_, fun mode offers median =>
    restsOnPositive_scoreOffers_iff services mode offers median⟩
  intro title price _ fair hfair
  constructor
  · intro htrue
    by_contra hnonpos
    exact not_truthful_of_nonpos hfair (not_lt.1 hnonpos) htrue
  · exact truthful_of_pos price hfair

/-! ## A fair price below zero -/

/-- One category, with a model that puts a title 68 dollars below zero. -/
def belowZero : Services :=
  { plainServices with
    guessCategory := fun _ => some "smart-home"
    models := fun _ => some fun _ => -68 }

theorem checkedFair_belowZero :
    checkedFair ascii belowZero [] "Google Nest thermostat" = some (-68) := by
  simp [checkedFair, fairFor, belowZero, Option.filter]

theorem truthful_iff_thermostat :
    Truthful 25 (-68) (checkDeal ascii belowZero [] "Google Nest thermostat" 25) ↔
      (0 : ℚ) < -68 :=
  (truthful_iff ascii belowZero []).1 "Google Nest thermostat" 25 (by norm_num) (-68)
    checkedFair_belowZero

/-- A thermostat at 25 dollars is within 15% of a fair price of -68, and so called fair. -/
theorem thermostat_called_fair :
    (checkDeal ascii belowZero [] "Google Nest thermostat" 25).verdict = some .fair ∧
      (checkDeal ascii belowZero [] "Google Nest thermostat" 25).basis = some .model ∧
      ¬ Truthful 25 (-68) (checkDeal ascii belowZero [] "Google Nest thermostat" 25) := by
  obtain ⟨hverdict, -, hbasis⟩ := checkDeal_of_fair 25 checkedFair_belowZero
  refine ⟨hverdict.trans ?_, hbasis, not_truthful_of_nonpos checkedFair_belowZero (by norm_num)⟩
  rw [residualFraction_of_nonpos (by norm_num)]
  decide +kernel

end DealFinder.Shop
