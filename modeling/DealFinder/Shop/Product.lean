/-
# Products

The normalized row of a store, the services of the process that the pipeline
calls, and the figures it rounds. Prices and scores are exact rationals here,
where the program has floats.
-/

import DealFinder.Math.Text
import Mathlib.Algebra.Order.Floor.Defs
import Mathlib.Data.Rat.Floor
import Mathlib.Data.List.Sort
import Mathlib.Data.String.Basic

namespace DealFinder.Shop

open DealFinder.Math

/-- `Product`, with the fields the search pipeline reads. -/
structure Product where
  id : String
  title : String
  brand : Option String
  price : ℚ
  url : String
  source : String
  imageUrl : Option String
  sku : Option String
  regularPrice : Option ℚ
  deriving DecidableEq

/-- A product with the time its source answered. -/
structure Listing extends Product where
  fetchedAt : String
  deriving DecidableEq

/-- A title handed to the embedding model, with the source of its row. A title that
the embedding cache answers counts as handed over. -/
structure Handed where
  title : String
  source : String
  deriving DecidableEq

/-- What a row hands to the embedding model. -/
def Product.handed (p : Product) : Handed := ⟨p.title, p.source⟩

/-- Functions of the process: the language's lowercasing and ASCII folding, the
embedding model, the pattern tables and the price models. The embedding of a
title depends on the title alone, so two titles have one cosine. -/
structure Services where
  /-- `str.lower`. -/
  lower : String → String
  /-- The ASCII characters of the NFKD form. -/
  asciiFold : String → String
  /-- The entry of `_cosine_matrix` for two titles. -/
  cosine : String → String → ℚ
  /-- The entry of the matrix in `peer_fair_prices` for two titles. -/
  similarity : String → String → ℚ
  /-- `np.argsort`. -/
  argsort : List ℚ → List ℕ
  /-- `guess_category`. -/
  guessCategory : String → Option String
  /-- `brand_tier`. -/
  brandTier : String → ℚ
  /-- `_models`: the prediction of the category's price model. -/
  models : String → Option (List ℚ → ℚ)

/-- `dedup_key`. -/
def dedupKey (services : Services) (p : Product) : String :=
  services.lower (strip (p.brand.getD "")) ++ "|" ++ services.lower (strip p.title)

/-- `round`: to the nearest integer, a half to the even one. -/
def roundHalfEven (x : ℚ) : ℤ :=
  if x - ⌊x⌋ < 1 / 2 then ⌊x⌋
  else if 1 / 2 < x - ⌊x⌋ then ⌊x⌋ + 1
  else if ⌊x⌋ % 2 = 0 then ⌊x⌋ else ⌊x⌋ + 1

/-- `round(x, digits)`. -/
def roundTo (digits : ℕ) (x : ℚ) : ℚ := roundHalfEven (x * 10 ^ digits) / 10 ^ digits

/-- A number with some decimals, as an f-string writes it. -/
def fixed (digits : ℕ) (x : ℚ) : String :=
  let n := (roundHalfEven (|x| * 10 ^ digits)).toNat
  let sign := if x < 0 then "-" else ""
  let whole := sign ++ toString (n / 10 ^ digits)
  if digits = 0 then whole
  else
    whole ++ "." ++ String.ofList ((toString (n % 10 ^ digits)).toList.leftpad digits '0')

/-- `statistics.median` of a nonempty list. -/
def median (data : List ℚ) : ℚ :=
  let sorted := data.insertionSort (· ≤ ·)
  let half := data.length / 2
  if data.length % 2 = 1 then sorted.getD half 0
  else (sorted.getD (half - 1) 0 + sorted.getD half 0) / 2

end DealFinder.Shop
