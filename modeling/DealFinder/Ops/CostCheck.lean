/-
# The cost preflight

`cost_check` reads the environment and reports what is armed that is paid for: metered sources, by a
table of its own, and models that are not free. It says nothing can bill when it finds none.

`main_eq_zero_iff` says that its table and the clients agree, and `free_of_disarmed` what an exit
code of zero is worth: no search calls a metered source, and every chat is with free models,
whatever the services answer. The environment is the one that `_load_dotenv` leaves.
-/

import DealFinder.Agent.Chat

namespace DealFinder.Ops

open DealFinder.Math DealFinder.Llm
open DealFinder.Shop (Getenv isSet paidOk Client liveSources enabledSources)

/-! ## The preflight -/

/-- `metered`: the label of a source, the key that arms it and its cost. -/
def metered : List (String × String × String) :=
  [("Apify (Google-Shopping actor)", "APIFY_TOKEN", "pay-per-event credits"),
    ("Amazon (Apify 'junglee' actor)", "APIFY_TOKEN", "14-day trial, then ~$40+/mo"),
    ("Firecrawl (broad-web)", "FIRECRAWL_API_KEY", "free credits, then paid")]

section Preflight

variable (getenv : Getenv)

/-- `armed`. -/
def armed : List (String × String) :=
  (metered.filter fun (_, key, _) => paidOk getenv && isSet getenv key).map
    fun (name, _, cost) => (name, cost)

/-- `str.endswith`. -/
def endsWith (text suffix : String) : Bool := suffix.toList.isSuffixOf text.toList

/-- `paid_models`. -/
def paidModels : List String :=
  (Shop.askedNames ((getenv "OPENROUTER_MODELS").getD "")).filter fun m => !endsWith m ":free"

/-- `main`, without `--live`: its exit code. -/
def main : ℕ := if armed getenv = [] ∧ paidModels getenv = [] then 0 else 1

end Preflight

/-! ## What it is worth -/

/-- No metered client is available, and the models listed are free. -/
structure Disarmed (getenv : Getenv) : Prop where
  sources : ∀ src ∈ liveSources, src.isMetered = true → src.available getenv = false
  models : isSet getenv "OPENROUTER_MODELS" = true →
    ∀ model ∈ models getenv, endsWith model ":free" = true

variable {getenv : Getenv}

/-- The table lists the keys of the metered clients. -/
theorem armed_eq_nil_iff : armed getenv = [] ↔
    ∀ src ∈ liveSources, src.isMetered = true → src.available getenv = false := by
  have htable : armed getenv = [] ↔
      ∀ key ∈ ["APIFY_TOKEN", "FIRECRAWL_API_KEY"],
        (isSet getenv key && paidOk getenv) = false := by
    rw [armed, List.map_eq_nil_iff, List.filter_eq_nil_iff]
    cases hpaid : paidOk getenv with
    | true => simp [metered]
    | false => simp
  rw [htable]
  constructor
  · intro h src hsrc hmetered
    simp only [liveSources, List.mem_cons, List.not_mem_nil, or_false] at hsrc
    rcases hsrc with rfl | rfl | rfl | rfl | rfl | rfl | rfl
    · cases hmetered
    · cases hmetered
    · exact h "APIFY_TOKEN" (by decide)
    · exact h "APIFY_TOKEN" (by decide)
    · cases hmetered
    · exact h "FIRECRAWL_API_KEY" (by decide)
    · cases hmetered
  · intro h key hkey
    rcases List.mem_pair.1 hkey with rfl | rfl
    · exact h Shop.apify (by simp [liveSources]) rfl
    · exact h Shop.firecrawl (by simp [liveSources]) rfl

theorem paidModels_eq_nil_iff : paidModels getenv = [] ↔
    (isSet getenv "OPENROUTER_MODELS" = true →
      ∀ model ∈ models getenv, endsWith model ":free" = true) := by
  rw [paidModels, List.filter_eq_nil_iff, isSet, models]
  cases getenv "OPENROUTER_MODELS" with
  | none => exact iff_of_true (by decide) (fun h => (nomatch h))
  | some listed =>
      by_cases hlisted : listed = ""
      · subst hlisted
        exact iff_of_true (by decide) (fun h => absurd h (by decide))
      · simp [hlisted]

theorem main_eq_zero_iff : main getenv = 0 ↔ Disarmed getenv := by
  rw [main]
  split_ifs with h
  · exact ⟨fun _ => ⟨armed_eq_nil_iff.1 h.1, paidModels_eq_nil_iff.1 h.2⟩, fun _ => rfl⟩
  · refine ⟨fun hzero => hzero.elim, fun hdisarmed => absurd ?_ h⟩
    exact ⟨armed_eq_nil_iff.2 hdisarmed.sources, paidModels_eq_nil_iff.2 hdisarmed.models⟩

/-- What an environment under which nothing can bill comes to. It is the one behind `_load_dotenv`,
and a chat is one that is given no tier of its own. -/
structure Free (getenv : Getenv) : Prop where
  calls : ∀ unicode names clients, enabledSources unicode getenv names = .ok clients →
    ∀ services settings query answer,
      ∀ s ∈ Shop.called services settings query (clients.map (·.toSource getenv answer)),
        ∃ src ∈ clients, s = src.toSource getenv answer ∧ src.isMetered = false
  streams : ∀ unicode names clients, enabledSources unicode getenv names = .ok clients →
    ∀ runtime raw query found found',
      (∀ src ∈ clients, src.isMetered = false → found src.name query = found' src.name query) →
      Pipeline.streamSearch runtime raw query (clients.map (·.toLiveSource getenv found)) =
        Pipeline.streamSearch runtime raw query (clients.map (·.toLiveSource getenv found'))
  chats : ∀ (M : Type) statusError post (prompt : Prompt M),
    ∀ request ∈ (chat statusError post prompt getenv none).1,
      request.model ∈ defaultTier ∨ endsWith request.model ":free" = true

/-- A client that is available then is not metered. -/
theorem Disarmed.unmetered (h : Disarmed getenv) {src : Client} (hsrc : src ∈ liveSources)
    (havailable : src.available getenv = true) : src.isMetered = false := by
  refine Bool.eq_false_iff.2 fun hmetered => ?_
  have hoff := h.sources src hsrc hmetered
  rw [havailable] at hoff
  cases hoff

theorem free_of_disarmed (h : Disarmed getenv) : Free getenv where
  calls unicode names clients hclients services settings query answer s hs := by
    obtain ⟨src, hsrc, rfl, havailable, -⟩ := Shop.called_governed hclients hs
    exact ⟨src, hsrc, rfl, h.unmetered ((Shop.sublist_liveSources hclients).subset hsrc) havailable⟩
  streams unicode names clients hclients runtime raw query found found' hfound := by
    refine Shop.streamSearch_congr fun src hsrc havailable => hfound src hsrc ?_
    exact h.unmetered ((Shop.sublist_liveSources hclients).subset hsrc) havailable
  chats M statusError post prompt request hrequest := by
    obtain ⟨model, hmodel, key, -, rfl⟩ := mem_chat hrequest
    cases hset : isSet getenv "OPENROUTER_MODELS" with
    | true => exact .inr (h.models hset model hmodel)
    | false =>
        refine .inl ?_
        rw [tierOf, models] at hmodel
        rw [isSet] at hset
        cases hlisted : getenv "OPENROUTER_MODELS" with
        | none =>
            rw [hlisted] at hmodel
            exact hmodel
        | some listed =>
            rw [hlisted] at hmodel hset
            have hnone : listed = "" := not_not.1 (of_decide_eq_false hset)
            rwa [hnone] at hmodel

/-- **The preflight** finds nothing just when the clients and the models have nothing that is paid
for, and then nothing that is paid for is called. -/
theorem preflight_exact (getenv : Getenv) :
    (main getenv = 0 ↔ Disarmed getenv) ∧ (Disarmed getenv → Free getenv) :=
  ⟨main_eq_zero_iff, free_of_disarmed⟩

/-- The token of a metered source, without the flag that turns it on. -/
def dormantEnv : Getenv := fun key => if key = "APIFY_TOKEN" then some "token" else none

theorem preflight_exact_dormant : Free dormantEnv :=
  (preflight_exact dormantEnv).2 ((preflight_exact dormantEnv).1.1 (by decide))

end DealFinder.Ops
