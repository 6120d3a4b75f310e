/-
# Least squares

A pseudo-inverse `B` of the Gram matrix `Aᵀ A` solves the normal equation for every right-hand
side: the residual of `B Aᵀ y` is orthogonal to the columns of `A` (`normal_equation`). So no
other weights leave less (`residual_add`), and among those that leave as little these are the
shortest (`solution_le`).

Everything is over an ordered field, so that the weights of rational data can be computed.
-/

import Mathlib.LinearAlgebra.Matrix.DotProduct
import Mathlib.Data.Matrix.Mul
import Mathlib.Tactic.Abel

namespace DealFinder.Math

open Matrix

variable {𝕜 m n : Type*} [Field 𝕜] [Fintype m] [Fintype n]

/-- The conditions on a pseudo-inverse of a matrix. -/
structure PseudoInverse (M B : Matrix n n 𝕜) : Prop where
  inner : M * B * M = M
  outer : B * M * B = B
  symm_left : (M * B)ᵀ = M * B
  symm_right : (B * M)ᵀ = B * M

/-- The sum of the squares. -/
def squares (v : m → 𝕜) : 𝕜 := v ⬝ᵥ v

/-- Of two orthogonal parts. -/
theorem squares_add {u v : m → 𝕜} (h : u ⬝ᵥ v = 0) : squares (u + v) = squares u + squares v := by
  have h' : v ⬝ᵥ u = 0 := (dotProduct_comm v u).trans h
  simp only [squares, add_dotProduct, dotProduct_add, h, h', add_zero, zero_add]

/-- A symmetric matrix is reproduced by the transpose of its pseudo-inverse too. -/
theorem PseudoInverse.inner_transpose {M B : Matrix n n 𝕜} (hB : PseudoInverse M B)
    (hM : Mᵀ = M) : M * (Bᵀ * M) = M := by
  have h := congrArg transpose hB.inner
  rwa [transpose_mul, transpose_mul, hM] at h

variable [LinearOrder 𝕜] [IsStrictOrderedRing 𝕜]

theorem squares_nonneg (v : m → 𝕜) : 0 ≤ squares v :=
  Finset.sum_nonneg fun i _ => mul_self_nonneg (v i)

theorem squares_eq_zero {v : m → 𝕜} : squares v = 0 ↔ v = 0 := dotProduct_self_eq_zero

/-! ## The normal equation -/

section Gram

variable (A : Matrix m n 𝕜) {B : Matrix n n 𝕜}

/-- What the Gram matrix maps to zero, the matrix does. -/
theorem mulVec_eq_zero_of_gram {v : n → 𝕜} (h : (Aᵀ * A) *ᵥ v = 0) : A *ᵥ v = 0 := by
  have hzero : squares (A *ᵥ v) = 0 := by
    calc squares (A *ᵥ v) = v ⬝ᵥ ((Aᵀ * A) *ᵥ v) := by
          rw [squares, ← mulVec_mulVec, dotProduct_mulVec v, vecMul_transpose]
      _ = 0 := by rw [h, dotProduct_zero]
  exact squares_eq_zero.1 hzero

/-- The columns of the transpose are reproduced. -/
theorem gram_mul_transpose (hB : PseudoInverse (Aᵀ * A) B) : Aᵀ * A * B * Aᵀ = Aᵀ := by
  have hsymm : (Aᵀ * A)ᵀ = Aᵀ * A := by rw [transpose_mul, transpose_transpose]
  have hmatrix : A * (Bᵀ * (Aᵀ * A)) = A := by
    classical
    refine ext_of_mulVec_single fun j => ?_
    rw [← mulVec_mulVec, ← sub_eq_zero, ← mulVec_sub]
    apply mulVec_eq_zero_of_gram
    rw [mulVec_sub, mulVec_mulVec, hB.inner_transpose hsymm, sub_self]
  have h := congrArg transpose hmatrix
  rwa [transpose_mul, transpose_mul, transpose_transpose, hsymm] at h

/-- The weights of a pseudo-inverse. -/
def solution (B : Matrix n n 𝕜) (y : m → 𝕜) : n → 𝕜 := B *ᵥ (Aᵀ *ᵥ y)

/-- What some weights leave. -/
def residual (y : m → 𝕜) (β : n → 𝕜) : m → 𝕜 := y - A *ᵥ β

/-- **The normal equation.** -/
theorem normal_equation (hB : PseudoInverse (Aᵀ * A) B) (y : m → 𝕜) :
    Aᵀ *ᵥ residual A y (solution A B y) = 0 := by
  rw [residual, mulVec_sub, solution, mulVec_mulVec, mulVec_mulVec, mulVec_mulVec,
    gram_mul_transpose A hB, sub_self]

/-- The residual is orthogonal to whatever the columns span. -/
theorem residual_orthogonal (hB : PseudoInverse (Aᵀ * A) B) (y : m → 𝕜) (v : n → 𝕜) :
    residual A y (solution A B y) ⬝ᵥ (A *ᵥ v) = 0 := by
  rw [dotProduct_mulVec, ← mulVec_transpose, normal_equation A hB, zero_dotProduct]

/-- Other weights leave more, by the squares of the difference. -/
theorem residual_add (hB : PseudoInverse (Aᵀ * A) B) (y : m → 𝕜) (β : n → 𝕜) :
    squares (residual A y β) =
      squares (residual A y (solution A B y)) + squares (A *ᵥ (solution A B y - β)) := by
  rw [← squares_add (residual_orthogonal A hB y _)]
  refine congrArg squares ?_
  rw [residual, residual, mulVec_sub]
  abel

theorem residual_le (hB : PseudoInverse (Aᵀ * A) B) (y : m → 𝕜) (β : n → 𝕜) :
    squares (residual A y (solution A B y)) ≤ squares (residual A y β) := by
  rw [residual_add A hB y β]
  exact le_add_of_nonneg_right (squares_nonneg _)

/-- Weights that leave as little fit alike. -/
theorem mulVec_eq_of_residual_eq (hB : PseudoInverse (Aᵀ * A) B) {y : m → 𝕜} {β : n → 𝕜}
    (h : squares (residual A y β) = squares (residual A y (solution A B y))) :
    A *ᵥ β = A *ᵥ solution A B y := by
  rw [residual_add A hB y β, add_eq_left, squares_eq_zero, mulVec_sub, sub_eq_zero] at h
  exact h.symm

/-- **The shortest weights.** -/
theorem solution_le (hB : PseudoInverse (Aᵀ * A) B) {y : m → 𝕜} {β : n → 𝕜}
    (h : A *ᵥ β = A *ᵥ solution A B y) : squares (solution A B y) ≤ squares β := by
  -- The solution is the projection of such weights along the kernel.
  have hprojected : (B * (Aᵀ * A)) *ᵥ β = solution A B y := by
    calc (B * (Aᵀ * A)) *ᵥ β = B *ᵥ (Aᵀ *ᵥ (A *ᵥ β)) := by simp only [mulVec_mulVec]
      _ = (B * (Aᵀ * A) * B) *ᵥ (Aᵀ *ᵥ y) := by
          rw [h, solution]
          simp only [mulVec_mulVec, Matrix.mul_assoc]
      _ = solution A B y := by rw [hB.outer, solution]
  have hidempotent : B * (Aᵀ * A) * (B * (Aᵀ * A)) = B * (Aᵀ * A) := by
    rw [← Matrix.mul_assoc, hB.outer]
  have horthogonal : ((B * (Aᵀ * A)) *ᵥ β) ⬝ᵥ (β - (B * (Aᵀ * A)) *ᵥ β) = 0 := by
    rw [dotProduct_comm, dotProduct_mulVec, ← mulVec_transpose, hB.symm_right, mulVec_sub,
      mulVec_mulVec, hidempotent, sub_self, zero_dotProduct]
  have hsplit := squares_add horthogonal
  rw [add_sub_cancel, hprojected] at hsplit
  rw [hsplit]
  exact le_add_of_nonneg_right (squares_nonneg _)

end Gram

end DealFinder.Math
