/-
# The price model

Ordinary least squares with an intercept: the weights are the pseudo-inverse of the Gram matrix,
times the transposed features, times the prices. Columns may be collinear. The arithmetic is
exact, that of an ordered field.

A fit is a best one. No weights leave less of the training prices, and of those that leave as
little these are the shortest. What is left adds up to zero, also when weighted by a feature, and
the coefficient of determination lies between zero and one (`fit_best`).
-/

import DealFinder.Math.LeastSquares
import Mathlib.Algebra.BigOperators.Fin
import Mathlib.Algebra.Order.Field.Basic
import Mathlib.Algebra.Order.Ring.Rat

namespace DealFinder.Shop

open DealFinder.Math Matrix

variable {𝕜 : Type*} [Field 𝕜] {n k d : ℕ}

/-- `_with_bias`: a leading column of ones. -/
def withBias (X : Matrix (Fin n) (Fin d) 𝕜) : Matrix (Fin n) (Fin (d + 1)) 𝕜 :=
  .of fun i => Fin.cons 1 (X i)

/-- `LinearModel`: the intercept and the weights, once it is fitted. -/
structure LinearModel (𝕜 : Type*) (d : ℕ) where
  coef : Option (Fin (d + 1) → 𝕜)

namespace LinearModel

/-- `LinearModel.__init__`. -/
def new : LinearModel 𝕜 d := ⟨none⟩

/-- `LinearModel.fit`, with `np.linalg.pinv`. -/
def fit (pinv : Matrix (Fin (d + 1)) (Fin (d + 1)) 𝕜 → Matrix (Fin (d + 1)) (Fin (d + 1)) 𝕜)
    (_model : LinearModel 𝕜 d) (X : Matrix (Fin n) (Fin d) 𝕜) (y : Fin n → 𝕜) : LinearModel 𝕜 d :=
  ⟨some ((pinv ((withBias X)ᵀ * withBias X) * (withBias X)ᵀ) *ᵥ y)⟩

/-- `LinearModel.predict`. -/
def predict (model : LinearModel 𝕜 d) (X : Matrix (Fin k) (Fin d) 𝕜) :
    Except String (Fin k → 𝕜) :=
  match model.coef with
  | none => .error "model is not fitted — call fit() first"
  | some coef => .ok (withBias X *ᵥ coef)

end LinearModel

/-- `np.mean`. -/
def mean (v : Fin n → 𝕜) : 𝕜 := (∑ i, v i) / n

/-- `ss_tot` of `r2`. -/
def ssTot (yTrue : Fin n → 𝕜) : 𝕜 := squares (yTrue - fun _ => mean yTrue)

/-- `r2`. -/
def r2 (yTrue yPred : Fin n → 𝕜) : 𝕜 := 1 - squares (yTrue - yPred) / ssTot yTrue

section Fit

variable
  {pinv : Matrix (Fin (d + 1)) (Fin (d + 1)) 𝕜 → Matrix (Fin (d + 1)) (Fin (d + 1)) 𝕜}
  {X : Matrix (Fin n) (Fin d) 𝕜} {y : Fin n → 𝕜}

/-- What a fit predicts of its own training rows. -/
def fitted (pinv : Matrix (Fin (d + 1)) (Fin (d + 1)) 𝕜 → Matrix (Fin (d + 1)) (Fin (d + 1)) 𝕜)
    (X : Matrix (Fin n) (Fin d) 𝕜) (y : Fin n → 𝕜) : Fin n → 𝕜 :=
  withBias X *ᵥ solution (withBias X) (pinv ((withBias X)ᵀ * withBias X)) y

theorem coef_fit (model : LinearModel 𝕜 d) :
    (model.fit pinv X y).coef =
      some (solution (withBias X) (pinv ((withBias X)ᵀ * withBias X)) y) := by
  rw [LinearModel.fit, solution, mulVec_mulVec]

theorem predict_fit (model : LinearModel 𝕜 d) :
    (model.fit pinv X y).predict X = .ok (fitted pinv X y) := by
  rw [LinearModel.predict, coef_fit]
  rfl

/-- The mean is what a model without features predicts. -/
theorem withBias_mulVec_mean (y : Fin n → 𝕜) :
    withBias X *ᵥ Fin.cons (mean y) 0 = fun _ => mean y := by
  funext i
  simp [withBias, mulVec, dotProduct, Fin.sum_univ_succ]

variable [LinearOrder 𝕜] [IsStrictOrderedRing 𝕜]

/-- What a fit leaves is orthogonal to the ones and to every feature. -/
theorem residual_fitted
    (h : PseudoInverse ((withBias X)ᵀ * withBias X) (pinv ((withBias X)ᵀ * withBias X)))
    (y : Fin n → 𝕜) :
    ∑ i, (y i - fitted pinv X y i) = 0 ∧ ∀ j, ∑ i, X i j * (y i - fitted pinv X y i) = 0 := by
  have hnormal := normal_equation (withBias X) h y
  refine ⟨?_, fun j => ?_⟩
  · have hzero := congrFun hnormal 0
    simpa [mulVec, dotProduct, Math.residual, fitted, withBias] using hzero
  · have hcolumn := congrFun hnormal j.succ
    simpa [mulVec, dotProduct, Math.residual, fitted, withBias] using hcolumn

theorem r2_fitted
    (h : PseudoInverse ((withBias X)ᵀ * withBias X) (pinv ((withBias X)ᵀ * withBias X)))
    (hspread : 0 < ssTot y) : 0 ≤ r2 y (fitted pinv X y) ∧ r2 y (fitted pinv X y) ≤ 1 := by
  have hle : squares (y - fitted pinv X y) ≤ ssTot y := by
    have hbest := residual_le (withBias X) h y (Fin.cons (mean y) 0)
    rwa [Math.residual, Math.residual, withBias_mulVec_mean] at hbest
  refine ⟨sub_nonneg.2 ((div_le_one hspread).2 hle), sub_le_self 1 ?_⟩
  exact div_nonneg (squares_nonneg _) hspread.le

end Fit

/-- A fit with these weights and predictions is a best one. -/
structure BestFit [LinearOrder 𝕜] (X : Matrix (Fin n) (Fin d) 𝕜) (y : Fin n → 𝕜)
    (coef : Fin (d + 1) → 𝕜) (predicted : Fin n → 𝕜) : Prop where
  least : ∀ (other : LinearModel 𝕜 d) prices, other.predict X = .ok prices →
    squares (y - predicted) ≤ squares (y - prices)
  shortest : ∀ (other : LinearModel 𝕜 d) prices, other.predict X = .ok prices →
    squares (y - prices) = squares (y - predicted) →
      prices = predicted ∧ ∀ weights, other.coef = some weights → squares coef ≤ squares weights
  unbiased : ∑ i, (y i - predicted i) = 0
  uncorrelated : ∀ j, ∑ i, X i j * (y i - predicted i) = 0
  determined : 0 < ssTot y → 0 ≤ r2 y predicted ∧ r2 y predicted ≤ 1

/-- **A fit is a best fit**, whatever the model was, the features and the prices: in exact
arithmetic, as long as `np.linalg.pinv` gives a pseudo-inverse. -/
theorem fit_best [LinearOrder 𝕜] [IsStrictOrderedRing 𝕜]
    (pinv : Matrix (Fin (d + 1)) (Fin (d + 1)) 𝕜 → Matrix (Fin (d + 1)) (Fin (d + 1)) 𝕜)
    (model : LinearModel 𝕜 d) (X : Matrix (Fin n) (Fin d) 𝕜) (y : Fin n → 𝕜)
    (hpinv : PseudoInverse ((withBias X)ᵀ * withBias X) (pinv ((withBias X)ᵀ * withBias X))) :
    ∃ coef predicted, (model.fit pinv X y).coef = some coef ∧
      (model.fit pinv X y).predict X = .ok predicted ∧ BestFit X y coef predicted := by
  have hother : ∀ (other : LinearModel 𝕜 d) prices, other.predict X = .ok prices →
      ∃ weights, other.coef = some weights ∧ prices = withBias X *ᵥ weights := by
    intro other prices h
    cases hcoef : other.coef with
    | none =>
        rw [LinearModel.predict, hcoef] at h
        cases h
    | some weights =>
        rw [LinearModel.predict, hcoef] at h
        exact ⟨weights, rfl, (Except.ok.inj h).symm⟩
  refine ⟨_, fitted pinv X y, coef_fit model, predict_fit model, ?_⟩
  refine ⟨fun other prices h => ?_, fun other prices h heq => ?_, (residual_fitted hpinv y).1,
    (residual_fitted hpinv y).2, r2_fitted hpinv⟩
  · obtain ⟨weights, -, rfl⟩ := hother other prices h
    exact residual_le (withBias X) hpinv y weights
  · obtain ⟨weights, hweights, rfl⟩ := hother other prices h
    have hsame := mulVec_eq_of_residual_eq (withBias X) hpinv heq
    refine ⟨hsame, fun weights' hweights' => ?_⟩
    obtain rfl := Option.some.inj (hweights.symm.trans hweights')
    exact solution_le (withBias X) hpinv hsame

/-- Two listings whose only feature is the intercept again. -/
def twins : Matrix (Fin 2) (Fin 1) ℚ := .of fun _ _ => 1

/-- The pseudo-inverse of their Gram matrix. -/
def twinsPinv : Matrix (Fin 2) (Fin 2) ℚ → Matrix (Fin 2) (Fin 2) ℚ := fun _ => .of fun _ _ => 1 / 8

theorem fit_best_twins :
    ∃ coef predicted,
      (LinearModel.new.fit twinsPinv twins fun i => 10 * i).coef = some coef ∧
      (LinearModel.new.fit twinsPinv twins fun i => 10 * i).predict twins = .ok predicted ∧
      BestFit twins (fun i => 10 * i) coef predicted :=
  fit_best twinsPinv LinearModel.new twins (fun i => 10 * i)
    ⟨by decide +kernel, by decide +kernel, by decide +kernel, by decide +kernel⟩

end DealFinder.Shop
