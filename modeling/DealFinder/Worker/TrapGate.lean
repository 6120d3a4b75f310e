/-
# The trap gate

Three places decide that an offer is too good to be true: `verdict`, the deal scores
of the search, and the ranker of the evaluation. The first counts a residual of
exactly 70% as a trap and the other two do not, so they differ on that boundary alone
(`one_trap_gate_iff`). A demoted item loses one, which keeps it from the users unless
its price is so far below zero that the rest still clears the threshold.
-/

import DealFinder.Worker.Suggestions
import Mathlib.Tactic.Linarith
import Mathlib.Tactic.FieldSimp

namespace DealFinder.Worker

open DealFinder.Math DealFinder.Features

universe u

/-! ## The verdict -/

/-- `Verdict`. -/
structure Rated where
  label : Shop.Verdict
  medianSignal : ℚ
  fairPrice : ℚ
  residualFrac : ℚ
  reason : String

/-- `verdict`, with its default thresholds. -/
def verdict (actual median fair : ℚ) : Rated :=
  let m := Shop.medianSignal actual median
  let rf := Shop.residualFraction actual fair
  if Shop.dealMedianFrac ≤ m ∧ Shop.suspiciousResidualFrac ≤ rf then
    ⟨.suspicious, m, fair, rf,
      Shop.fixed 0 (m * 100) ++ "% under median but " ++ Shop.fixed 0 (rf * 100) ++
        "% under model fair price $" ++ Shop.fixed 0 fair ++
        " — too far below to be real (likely refurb/mislisted)."⟩
  else if Shop.dealMedianFrac ≤ m then
    ⟨.deal, m, fair, rf,
      Shop.fixed 0 (m * 100) ++ "% under the $" ++ Shop.fixed 2 median ++
        " median and consistent with the model's $" ++ Shop.fixed 0 fair ++
        " fair price — a genuine value pick."⟩
  else if m < 0 then
    ⟨.overpriced, m, fair, rf, Shop.fixed 0 (-m * 100) ++ "% above the market median."⟩
  else ⟨.fair, m, fair, rf, "priced near the market median."⟩

/-! ## The evaluation's ranker -/

/-- A row of the golden set. -/
structure Golden where
  id : String
  title : String
  category : String
  price : ℚ
  median : ℚ
  label : Shop.Verdict

section Rankers

variable {ν : Type u} (unicode : Unicode) (numerics : Numerics ν)

/-- `by_id`: the last product of an id. -/
def byId (products : List Product) : Dict String Product :=
  products.foldl (fun found p => found.set p.id p) Dict.empty

/-- `SUSPICIOUS_RESIDUAL_FRAC`, of the evaluation. -/
def evalResidualFrac : ℚ := 70 / 100

/-- `score`, in `two_signal_ranker`. -/
def goldenScore (products : List Product) (g : Golden) : ℚ :=
  let m := Shop.medianSignal g.price g.median
  match fittedModel unicode numerics products g.category, (byId products).get? g.id with
  | some model, some p =>
      let rf := Shop.residualFraction p.price (model (featurize unicode p))
      if 15 / 100 ≤ m ∧ evalResidualFrac < rf then m - 1 else m
  | _, _ => m

/-- `two_signal_ranker`. -/
def twoSignalRanker (golden : List Golden) (products : List Product) : List Golden :=
  golden.insertionSort fun g g' =>
    goldenScore unicode numerics products g' ≤ goldenScore unicode numerics products g

/-! ## One gate -/

variable (products : List Product) (medians : Dict String ℚ)

/-- The verdict on a product by its median and its model's fair price, when there is a
model of its category. -/
def verdictOf (p : Product) : Option Shop.Verdict :=
  (fittedModel unicode numerics products p.category).map fun model =>
    (verdict p.price (medians.getD p.id 0) (model (featurize unicode p))).label

/-- A golden row of a product: the ranker finds the product by its id. -/
structure GoldenOf (g : Golden) (p : Product) : Prop where
  found : (byId products).get? g.id = some p
  category : g.category = p.category
  price : g.price = p.price
  median : g.median = medians.getD p.id 0

/-- The three places agree, and no user is told of a trap: whatever embeddings the catalog
has, whatever is searched for, and whatever was seen. -/
structure OneTrapGate : Prop where
  search : ∀ p ∈ products,
    (dealScore unicode numerics products medians p =
        Shop.medianSignal p.price (medians.getD p.id 0) - 1 ↔
      verdictOf unicode numerics products medians p = some .suspicious)
  ranker : ∀ g p, GoldenOf products medians g p →
    (goldenScore unicode numerics products g = Shop.medianSignal g.price g.median - 1 ↔
      verdictOf unicode numerics products medians p = some .suspicious)
  worker : ∀ (embeddings : List ν) (aligned : embeddings.length = products.length)
    (raises : ℕ → Bool) (saved : List SavedSearch) (h : Heap) (state : ℕ),
    ∀ call ∈ (runSuggestions (findDeals unicode numerics ⟨products, embeddings, medians, aligned⟩)
        raises saved h state).delivered,
      verdictOf unicode numerics products medians call.product ≠ some .suspicious

/-- A product where the places differ: well under its median, and at 30% of its fair price
exactly, or below zero by 30% of its median. -/
def OffGate (p : Product) : Prop :=
  ∃ model, fittedModel unicode numerics products p.category = some model ∧
    0 < medians.getD p.id 0 ∧ 0 < model (featurize unicode p) ∧
      ((p.price = 30 / 100 * model (featurize unicode p) ∧
          p.price ≤ 85 / 100 * medians.getD p.id 0) ∨
        p.price ≤ -(30 / 100) * medians.getD p.id 0)

end Rankers

/-! ## The signals in prices -/

theorem le_medianSignal_iff {actual median frac : ℚ} (hfrac : 0 < frac) :
    frac ≤ Shop.medianSignal actual median ↔ 0 < median ∧ actual ≤ (1 - frac) * median := by
  unfold Shop.medianSignal
  split_ifs with hmedian
  · constructor
    · intro h
      linarith
    · rintro ⟨hpos, -⟩
      linarith
  · have hpos : 0 < median := not_le.1 hmedian
    rw [le_div_iff₀ hpos]
    constructor
    · intro h
      exact ⟨hpos, by linarith⟩
    · rintro ⟨-, h⟩
      linarith

theorem residualFraction_eq_iff {actual fair frac : ℚ} (hfrac : 0 < frac) :
    Shop.residualFraction actual fair = frac ↔ 0 < fair ∧ actual = (1 - frac) * fair := by
  unfold Shop.residualFraction
  split_ifs with hfair
  · constructor
    · intro h
      linarith
    · rintro ⟨hpos, -⟩
      linarith
  · have hpos : 0 < fair := not_le.1 hfair
    rw [div_eq_iff hpos.ne']
    constructor
    · intro h
      exact ⟨hpos, by linarith⟩
    · rintro ⟨-, h⟩
      linarith

theorem lt_residualFraction_iff {actual fair frac : ℚ} (hfrac : 0 < frac) :
    frac < Shop.residualFraction actual fair ↔ 0 < fair ∧ actual < (1 - frac) * fair := by
  unfold Shop.residualFraction
  split_ifs with hfair
  · constructor
    · intro h
      linarith
    · rintro ⟨hpos, -⟩
      linarith
  · have hpos : 0 < fair := not_le.1 hfair
    rw [lt_div_iff₀ hpos]
    constructor
    · intro h
      exact ⟨hpos, by linarith⟩
    · rintro ⟨-, h⟩
      linarith

/-- The verdict and the badge are one decision. -/
theorem label_verdict (actual median fair : ℚ) :
    (verdict actual median fair).label =
      Shop.renderBadge (Shop.medianSignal actual median) (Shop.residualFraction actual fair) := by
  unfold verdict Shop.renderBadge
  dsimp only
  split_ifs <;> rfl

theorem label_eq_suspicious_iff {actual median fair : ℚ} :
    (verdict actual median fair).label = .suspicious ↔
      15 / 100 ≤ Shop.medianSignal actual median ∧
        70 / 100 ≤ Shop.residualFraction actual fair := by
  rw [label_verdict]
  unfold Shop.renderBadge Shop.dealMedianFrac Shop.suspiciousResidualFrac
  split_ifs with htrap
  · exact iff_of_true rfl htrap
  all_goals exact iff_of_false (fun h => by cases h) htrap

/-- Losing one is noticed. -/
theorem demoted_iff {m : ℚ} {trap : Prop} [Decidable trap] :
    (if trap then m - 1 else m) = m - 1 ↔ trap := by
  split_ifs with htrap
  · exact iff_of_true rfl htrap
  · exact iff_of_false (fun h => by linarith) htrap

/-! ## Where the gates differ -/

section Gate

variable {ν : Type u} {unicode : Unicode} {numerics : Numerics ν} {products : List Product}
  {medians : Dict String ℚ}

/-- Without a residual of exactly 70% under a low price, the two comparisons agree. -/
theorem strict_iff_of_not_boundary {m rf : ℚ} (hoff : ¬ (15 / 100 ≤ m ∧ rf = 70 / 100)) :
    (15 / 100 ≤ m ∧ 70 / 100 < rf) ↔ (15 / 100 ≤ m ∧ 70 / 100 ≤ rf) := by
  constructor
  · rintro ⟨hm, hrf⟩
    exact ⟨hm, hrf.le⟩
  · rintro ⟨hm, hrf⟩
    exact ⟨hm, lt_of_le_of_ne hrf fun heq => hoff ⟨hm, heq.symm⟩⟩

theorem boundary_iff {price median fair : ℚ} :
    (15 / 100 ≤ Shop.medianSignal price median ∧ Shop.residualFraction price fair = 70 / 100) ↔
      0 < median ∧ 0 < fair ∧ price = 30 / 100 * fair ∧ price ≤ 85 / 100 * median := by
  rw [le_medianSignal_iff (by norm_num), residualFraction_eq_iff (by norm_num)]
  norm_num
  tauto

theorem verdictOf_eq_suspicious_iff {p : Product} :
    verdictOf unicode numerics products medians p = some .suspicious ↔
      ∃ model, fittedModel unicode numerics products p.category = some model ∧
        15 / 100 ≤ Shop.medianSignal p.price (medians.getD p.id 0) ∧
          70 / 100 ≤ Shop.residualFraction p.price (model (featurize unicode p)) := by
  simp only [verdictOf, Option.map_eq_some_iff, label_eq_suspicious_iff]

/-- The score of the search demotes on a strictly larger residual. -/
theorem dealScore_demotes_iff {p : Product} :
    dealScore unicode numerics products medians p =
        Shop.medianSignal p.price (medians.getD p.id 0) - 1 ↔
      ∃ model, fittedModel unicode numerics products p.category = some model ∧
        15 / 100 ≤ Shop.medianSignal p.price (medians.getD p.id 0) ∧
          70 / 100 < Shop.residualFraction p.price (model (featurize unicode p)) := by
  rw [dealScore]
  cases hmodel : fittedModel unicode numerics products p.category with
  | none =>
      apply iff_of_false
      · intro h
        linarith
      · rintro ⟨model, hmodel, -⟩
        cases hmodel
  | some model =>
      simp only [Option.some.injEq, exists_eq_left']
      exact demoted_iff

theorem mem_of_byId {id : String} {p : Product} (h : (byId products).get? id = some p) :
    p ∈ products := by
  have hall : ∀ (l : List Product) (found : Dict String Product),
      (l.foldl (fun found p => found.set p.id p) found).get? id = some p →
        p ∈ l ∨ found.get? id = some p := by
    intro l
    induction l with
    | nil => exact fun found h => Or.inr h
    | cons q rest ih =>
        intro found h
        rcases ih _ h with hrest | hfound
        · exact Or.inl (List.mem_cons_of_mem _ hrest)
        · rw [Dict.get?_set] at hfound
          split_ifs at hfound
          · exact Or.inl (Option.some.inj hfound ▸ List.mem_cons_self)
          · exact Or.inr hfound
  rcases hall products Dict.empty h with hmem | hempty
  · exact hmem
  · cases hempty

/-- The score of the ranker demotes as that of the search does. -/
theorem goldenScore_demotes_iff {g : Golden} {p : Product} (hg : GoldenOf products medians g p) :
    goldenScore unicode numerics products g = Shop.medianSignal g.price g.median - 1 ↔
      dealScore unicode numerics products medians p =
        Shop.medianSignal p.price (medians.getD p.id 0) - 1 := by
  have hscore : goldenScore unicode numerics products g =
      dealScore unicode numerics products medians p := by
    simp only [goldenScore, dealScore, hg.found, hg.category, hg.price, hg.median]
    cases fittedModel unicode numerics products p.category with
    | none => rfl
    | some model => rfl
  rw [hscore, hg.price, hg.median]

/-- A product that is not off the gate is demoted exactly when it is a trap. -/
theorem dealScore_demotes_iff_suspicious {p : Product}
    (hoff : ¬ OffGate unicode numerics products medians p) :
    dealScore unicode numerics products medians p =
        Shop.medianSignal p.price (medians.getD p.id 0) - 1 ↔
      verdictOf unicode numerics products medians p = some .suspicious := by
  rw [dealScore_demotes_iff, verdictOf_eq_suspicious_iff]
  apply exists_congr
  intro model
  apply and_congr_right
  intro hmodel
  apply strict_iff_of_not_boundary
  intro hboundary
  obtain ⟨hmedian, hfair, hprice, hlow⟩ := boundary_iff.1 hboundary
  exact hoff ⟨model, hmodel, hmedian, hfair, Or.inl ⟨hprice, hlow⟩⟩

/-- A demoted trap clears the threshold only below zero. -/
theorem offGate_of_cleared {p : Product}
    (hclears : dealScoreThreshold ≤ dealScore unicode numerics products medians p)
    (htrap : verdictOf unicode numerics products medians p = some .suspicious) :
    OffGate unicode numerics products medians p := by
  by_contra hoff
  have hdemoted := (dealScore_demotes_iff_suspicious hoff).2 htrap
  obtain ⟨model, hmodel, hm, hrf⟩ := dealScore_demotes_iff.1 hdemoted
  rw [hdemoted, dealScoreThreshold, le_sub_iff_add_le, le_medianSignal_iff (by norm_num)] at hclears
  obtain ⟨hmedian, hprice⟩ := hclears
  obtain ⟨hfair, -⟩ := (lt_residualFraction_iff (by norm_num)).1 hrf
  exact hoff ⟨model, hmodel, hmedian, hfair, Or.inr (by linarith)⟩

/-- A trap off the gate below zero clears the threshold. -/
theorem trap_of_below_zero {p : Product} {model : List ℚ → ℚ}
    (hmodel : fittedModel unicode numerics products p.category = some model)
    (hmedian : 0 < medians.getD p.id 0) (hfair : 0 < model (featurize unicode p))
    (hprice : p.price ≤ -(30 / 100) * medians.getD p.id 0) :
    verdictOf unicode numerics products medians p = some .suspicious ∧
      dealScoreThreshold ≤ dealScore unicode numerics products medians p := by
  have hm : 130 / 100 ≤ Shop.medianSignal p.price (medians.getD p.id 0) :=
    (le_medianSignal_iff (by norm_num)).2 ⟨hmedian, by linarith⟩
  have hrf : 70 / 100 < Shop.residualFraction p.price (model (featurize unicode p)) :=
    (lt_residualFraction_iff (by norm_num)).2 ⟨hfair, by linarith⟩
  have hlow : (15 / 100 : ℚ) ≤ Shop.medianSignal p.price (medians.getD p.id 0) :=
    le_trans (by norm_num) hm
  constructor
  · exact verdictOf_eq_suspicious_iff.2 ⟨model, hmodel, hlow, hrf.le⟩
  · rw [dealScore_demotes_iff.2 ⟨model, hmodel, hlow, hrf⟩, dealScoreThreshold]
    linarith

/-- A deal of the catalog is told to a user who asks for enough results. -/
theorem exists_told (hsorts : SortsPlaces numerics) {p : Product} (hp : p ∈ products)
    (hclears : dealScoreThreshold ≤ dealScore unicode numerics products medians p) :
    ∃ (embeddings : List ν) (aligned : embeddings.length = products.length)
      (raises : ℕ → Bool) (saved : List SavedSearch) (h : Heap) (state : ℕ),
      ∃ call ∈ (runSuggestions
          (findDeals unicode numerics ⟨products, embeddings, medians, aligned⟩)
          raises saved h state).delivered, call.product = p := by
  let search : SavedSearch := ⟨"", "", products.length⟩
  let catalog : Catalog ν :=
    ⟨products, products.map fun _ => numerics.embed "", medians, List.length_map _⟩
  let blank : Heap := ⟨[], [Dict.empty], by simp [Dict.values, Dict.empty]⟩
  have hfound : (p, dealScore unicode numerics products medians p) ∈
      findDeals unicode numerics catalog search.query search.k :=
    findDeals_complete hsorts le_rfl hp hclears
  refine ⟨_, catalog.aligned, fun _ => false, [search], blank, 0,
    ⟨search, p, dealScore unicode numerics products medians p⟩, ?_, rfl⟩
  rw [(runSuggestions_spec [search] blank 0).1, deliver_all fun _ _ => rfl, List.nil_append, due]
  apply List.mem_append_left
  refine List.mem_map.2 ⟨_, List.mem_filter.2 ⟨hfound, ?_⟩, rfl⟩
  simp [Memory.seen, memory, blank, Heap.dict]

/-- The three gates are one, and no user is told of a trap, exactly when no product is
off the gate. -/
theorem one_trap_gate_iff (hsorts : SortsPlaces numerics) :
    OneTrapGate unicode numerics products medians ↔
      ∀ p ∈ products, ¬ OffGate unicode numerics products medians p := by
  constructor
  · rintro hgate p hp ⟨model, hmodel, hmedian, hfair, hboundary | hbelow⟩
    · obtain ⟨hm, hrf⟩ := boundary_iff.2 ⟨hmedian, hfair, hboundary⟩
      have htrap := verdictOf_eq_suspicious_iff.2 ⟨model, hmodel, hm, hrf.ge⟩
      obtain ⟨model', hmodel', -, hstrict⟩ :=
        dealScore_demotes_iff.1 ((hgate.search p hp).2 htrap)
      obtain rfl := Option.some.inj (hmodel.symm.trans hmodel')
      exact hstrict.ne' hrf
    · obtain ⟨htrap, hclears⟩ := trap_of_below_zero hmodel hmedian hfair hbelow
      obtain ⟨embeddings, aligned, raises, saved, h, state, call, hcall, rfl⟩ :=
        @exists_told ν unicode numerics products medians hsorts p hp hclears
      exact hgate.worker embeddings aligned raises saved h state call hcall htrap
  · intro hoff
    refine ⟨fun p hp => dealScore_demotes_iff_suspicious (hoff p hp), ?_, ?_⟩
    · intro g p hg
      rw [goldenScore_demotes_iff hg]
      exact dealScore_demotes_iff_suspicious (hoff p (mem_of_byId hg.found))
    · intro embeddings aligned raises saved h state call hcall htrap
      have hdeal := (mem_due (delivered_subset_due saved h state hcall)).2
      obtain ⟨hp, hclears, hscore⟩ := mem_findDeals hdeal
      rw [hscore] at hclears
      exact hoff call.product hp (offGate_of_cleared hclears htrap)

end Gate

/-! ## A trap that passes -/

/-- Three headphones, the first at 30% of a fair price of 100. -/
def audio : List Product := [headphones "a" 30, headphones "b" 90, headphones "c" 95]

/-- The median of the first headphones. -/
def audioMedians : Dict String ℚ := Dict.empty.set "a" 100

theorem one_trap_gate_audio :
    OneTrapGate ascii (constant 100) audio audioMedians ↔
      ∀ p ∈ audio, ¬ OffGate ascii (constant 100) audio audioMedians p :=
  one_trap_gate_iff (sortsPlaces_constant 100)

/-- At 30% of its fair price an offer is suspicious, and the search does not demote it. -/
theorem boundary_not_demoted :
    ¬ ∀ (unicode : Unicode) (numerics : Numerics Unit), SortsPlaces numerics →
      ∀ (products : List Product) (medians : Dict String ℚ),
        OneTrapGate unicode numerics products medians := by
  intro hall
  have hgate := (hall ascii (constant 100) (sortsPlaces_constant 100) audio audioMedians).search
    (headphones "a" 30) List.mem_cons_self
  have htrap : verdictOf ascii (constant 100) audio audioMedians (headphones "a" 30) =
      some .suspicious := by decide +kernel
  have hdemoted := hgate.2 htrap
  exact absurd hdemoted (by decide +kernel)

end DealFinder.Worker
