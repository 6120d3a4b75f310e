/-
# Licences

What each store's terms let the shop do with its rows. A row's source is a key,
alone or followed by a colon and a detail; a key without a policy is denied
everything.
-/

import DealFinder.Math.Dict
import Mathlib.Data.String.Basic

namespace DealFinder.Shop

open DealFinder.Math

/-- What a store's terms require next to its data. -/
structure Attribution where
  source : String
  text : String
  url : String
  logo : String
  deriving DecidableEq

/-- `SourcePolicy`. -/
structure SourcePolicy where
  key : String
  verdicts : Bool
  store : Bool
  embed : Bool
  comingle : Bool
  maxAgeS : ℕ
  launch : Bool
  attribution : Option Attribution
  deriving DecidableEq

/-- `_BESTBUY_ATTRIBUTION`. -/
def bestBuyAttribution : Attribution where
  source := "BestBuy"
  text := "Prices and product data from Best Buy"
  url := "https://www.bestbuy.com"
  logo := "bestbuy"

/-- `_course`: everything allowed, but off at launch. -/
def course (key : String) : SourcePolicy where
  key := key
  verdicts := true
  store := true
  embed := true
  comingle := true
  maxAgeS := 72 * 3600
  launch := false
  attribution := none

/-- `POLICIES`. -/
def policies : Dict String SourcePolicy where
  entries :=
    [("BestBuy", ⟨"BestBuy", true, true, true, true, 72 * 3600, true, some bestBuyAttribution⟩),
      ("eBay", ⟨"eBay", false, false, false, false, 6 * 3600, true, none⟩)] ++
      ["RapidAPI", "Apify", "Amazon", "Shopify", "Firecrawl", "iTunes"].map fun key =>
        (key, course key)
  nodup_keys := by decide

/-- `source_key`: the text before the first colon. -/
def sourceKey (source : String) : String := String.ofList (source.toList.takeWhile (· ≠ ':'))

/-- `policy_for`. -/
def policyFor (source : String) : Option SourcePolicy := policies.get? (sourceKey source)

/-- The policy exists and grants a right. -/
def grants (right : SourcePolicy → Bool) (source : String) : Bool := (policyFor source).any right

/-- `may_verdict`. -/
def mayVerdict : String → Bool := grants SourcePolicy.verdicts

/-- `may_store`. -/
def mayStore : String → Bool := grants SourcePolicy.store

/-- `may_embed`. -/
def mayEmbed : String → Bool := grants SourcePolicy.embed

/-- `may_comingle`. -/
def mayComingle : String → Bool := grants SourcePolicy.comingle

/-- One right implies another at every source when it does in every policy. -/
theorem grants_mono {right right' : SourcePolicy → Bool}
    (h : ∀ policy ∈ policies.values, right policy = true → right' policy = true) {source : String}
    (hgrants : grants right source = true) : grants right' source = true := by
  cases hpolicy : policyFor source with
  | none => simp [grants, hpolicy] at hgrants
  | some policy =>
      simp only [grants, hpolicy, Option.any_some] at hgrants ⊢
      exact h policy (Dict.mem_values_iff.2 ⟨_, hpolicy⟩) hgrants

/-- What may be rated may be mixed. -/
theorem mayComingle_of_mayVerdict {source : String} (h : mayVerdict source = true) :
    mayComingle source = true := grants_mono (by decide) h

/-- What may be mixed may be rated. -/
theorem mayVerdict_of_mayComingle {source : String} (h : mayComingle source = true) :
    mayVerdict source = true := grants_mono (by decide) h

end DealFinder.Shop
