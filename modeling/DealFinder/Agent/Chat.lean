/-
# Chat

`chat` posts to the models of a tier in order, and moves on while a model is throttled or cannot be
reached. `CascadeRouter.route` does the same with the confidence of an answer. A service may answer
by what was posted to it before.

`chat_keeps` says what is posted and what comes of it: a prefix of the tier, the content of the
first model that answers, the error of the first that refuses, or the text of the last failure.
-/

import DealFinder.Math.Cascade
import DealFinder.Shop.Enabled

namespace DealFinder.Llm

open DealFinder.Math
open DealFinder.Shop (Getenv isSet)

universe u

/-! ## The models -/

/-- `_SKIP`. -/
def skip : List ℕ := [402, 403, 404, 429, 502, 503]

/-- The tier of `models` where the environment has none. -/
def defaultTier : List String :=
  ["google/gemma-4-31b-it:free", "openai/gpt-oss-20b:free", "openrouter/free"]

/-- `models`. -/
def models (getenv : Getenv) : List String :=
  match getenv "OPENROUTER_MODELS" with
  | none => defaultTier
  | some listed => if listed = "" then defaultTier else Shop.askedNames listed

/-- `available`. -/
def available (getenv : Getenv) : Bool := isSet getenv "OPENROUTER_API_KEY"

/-! ## Chat -/

/-- What is posted. The temperature is a finite float. -/
structure Request (M : Type u) where
  key : String
  model : String
  temperature : ℚ
  messages : M
  jsonMode : Bool

/-- What becomes of a request: it fails on its way, or it is answered with a status and with what is
read from the body. -/
inductive Response
  | failed (text : String)
  | answered (status : ℕ) (content : Except String String)

section Chat

variable {M : Type u}

/-- The arguments of `chat` but for the tier. -/
structure Prompt (M : Type u) where
  messages : M
  temperature : ℚ
  jsonMode : Bool

/-- The request for a model. -/
def Prompt.request (prompt : Prompt M) (key model : String) : Request M where
  key := key
  model := model
  temperature := prompt.temperature
  messages := prompt.messages
  jsonMode := prompt.jsonMode

variable (statusError : ℕ → String) (post : List (Request M) → Request M → Response)
  (prompt : Prompt M)

/-- The body of the loop of `chat`. A result ends the loop, and a failure is `last`. -/
def askModel (key : String) (asked : List String) (model : String) :
    Except String (Except String String) :=
  match post (asked.map (prompt.request key)) (prompt.request key model) with
  | .failed text => .error (model ++ ": " ++ text)
  | .answered status content =>
      if status = 200 then .ok content
      else if status ∈ skip then .error (model ++ ": HTTP " ++ toString status)
      -- `raise_for_status` raises unless the status is a success.
      else if 200 ≤ status ∧ status < 300 then .error (model ++ ": HTTP " ++ toString status)
      else .ok (.error (statusError status))

/-- `model_tier or models()`. -/
def tierOf (getenv : Getenv) (modelTier : Option (List String)) : List String :=
  match modelTier with
  | none => models getenv
  | some tier => if tier = [] then models getenv else tier

/-- `chat`: what it posts, and what it returns or raises. -/
def chat (getenv : Getenv) (modelTier : Option (List String)) :
    List (Request M) × Except String String :=
  match getenv "OPENROUTER_API_KEY" with
  | none => ([], .error "OPENROUTER_API_KEY not set")
  | some key =>
      if key = "" then ([], .error "OPENROUTER_API_KEY not set")
      else
        let cascaded := cascade (askModel statusError post prompt key) [] (tierOf getenv modelTier)
          "no models"
        (cascaded.tried.map (prompt.request key),
          match cascaded.outcome with
          | .ok result => result
          | .error last => .error ("all models failed (" ++ last ++ ")"))

end Chat

/-! ## What a chat comes to -/

/-- The loop goes on behind such a response. -/
def Response.PassedOver : Response → Prop
  | .failed _ => True
  | .answered status _ => status ∈ skip ∨ 200 < status ∧ status < 300

/-- `last` behind a response of the model. -/
def Response.failure (model : String) : Response → String
  | .failed text => model ++ ": " ++ text
  | .answered status _ => model ++ ": HTTP " ++ toString status

section Chat

variable {M : Type u} {statusError : ℕ → String} {post : List (Request M) → Request M → Response}
  {prompt : Prompt M} {key model : String} {asked : List String}

/-- The response to the request for a model, behind those for others. -/
def responseTo (post : List (Request M) → Request M → Response) (prompt : Prompt M) (key : String)
    (asked : List String) (model : String) : Response :=
  post (asked.map (prompt.request key)) (prompt.request key model)

theorem passedOver_of_error {why : String}
    (h : askModel statusError post prompt key asked model = .error why) :
    (responseTo post prompt key asked model).PassedOver ∧
      why = (responseTo post prompt key asked model).failure model := by
  rw [askModel] at h
  rw [responseTo]
  cases hresponse : post (asked.map (prompt.request key)) (prompt.request key model) with
  | failed text =>
      rw [hresponse] at h
      exact ⟨trivial, (Except.error.inj h).symm⟩
  | answered status content =>
      rw [hresponse] at h
      simp only at h
      split_ifs at h with hok hskip hsuccess
      · exact ⟨.inl hskip, (Except.error.inj h).symm⟩
      · exact ⟨.inr ⟨lt_of_le_of_ne hsuccess.1 (Ne.symm hok), hsuccess.2⟩,
          (Except.error.inj h).symm⟩

/-- A response that ends the loop is an answer, or the error of a status. -/
theorem answered_of_ok {result : Except String String}
    (h : askModel statusError post prompt key asked model = .ok result) :
    responseTo post prompt key asked model = .answered 200 result ∨
    ∃ status content, responseTo post prompt key asked model = .answered status content ∧
      status ∉ skip ∧ ¬(200 ≤ status ∧ status < 300) ∧ result = .error (statusError status) := by
  rw [askModel] at h
  rw [responseTo]
  cases hresponse : post (asked.map (prompt.request key)) (prompt.request key model) with
  | failed text =>
      rw [hresponse] at h
      cases h
  | answered status content =>
      rw [hresponse] at h
      simp only at h
      split_ifs at h with hok hskip hsuccess
      · obtain rfl := Except.ok.inj h
        exact .inl (hok ▸ rfl)
      · exact .inr ⟨status, content, rfl, hskip, hsuccess, (Except.ok.inj h).symm⟩

/-- Each of the models was passed over in its turn. -/
def PassedOver (post : List (Request M) → Request M → Response) (prompt : Prompt M) (key : String)
    (asked : List String) : Prop :=
  ∀ before model after, asked = before ++ model :: after →
    (responseTo post prompt key before model).PassedOver

/-- What there is to a chat: what it posts, and what it returns or raises. -/
inductive Chatted (statusError : ℕ → String) (post : List (Request M) → Request M → Response)
    (prompt : Prompt M) (key : String) (tier : List String) :
    List (Request M) × Except String String → Prop
  | answered {before after : List String} {model : String} {content : Except String String}
      (htier : tier = before ++ model :: after) (hbefore : PassedOver post prompt key before)
      (hmodel : responseTo post prompt key before model = .answered 200 content) :
      Chatted statusError post prompt key tier
        ((before ++ [model]).map (prompt.request key), content)
  | refused {before after : List String} {model : String} {status : ℕ}
      {content : Except String String}
      (htier : tier = before ++ model :: after) (hbefore : PassedOver post prompt key before)
      (hmodel : responseTo post prompt key before model = .answered status content)
      (hskip : status ∉ skip) (hstatus : ¬(200 ≤ status ∧ status < 300)) :
      Chatted statusError post prompt key tier
        ((before ++ [model]).map (prompt.request key), .error (statusError status))
  | exhausted {before : List String} {model : String} (htier : tier = before ++ [model])
      (hpassed : PassedOver post prompt key tier) :
      Chatted statusError post prompt key tier (tier.map (prompt.request key),
        .error ("all models failed (" ++ (responseTo post prompt key before model).failure model ++
          ")"))
  | noModels (htier : tier = []) :
      Chatted statusError post prompt key tier ([], .error "all models failed (no models)")

theorem passedOver_of_fails {tier : List String} {last final : String}
    (h : Fails (askModel statusError post prompt key) [] tier last final) :
    PassedOver post prompt key tier := by
  intro before model after htier
  obtain ⟨why, hwhy⟩ := h.attempted htier
  exact (passedOver_of_error hwhy).1

/-- **A chat**, of every service and every tier. -/
theorem chat_keeps (statusError : ℕ → String) (post : List (Request M) → Request M → Response)
    (prompt : Prompt M) {getenv : Getenv} (hkey : getenv "OPENROUTER_API_KEY" = some key)
    (hne : key ≠ "") (modelTier : Option (List String)) :
    Chatted statusError post prompt key (tierOf getenv modelTier)
      (chat statusError post prompt getenv modelTier) := by
  rw [chat, hkey]
  simp only [hne, if_false]
  generalize tierOf getenv modelTier = tier
  have hsettles : Settles (askModel statusError post prompt key) [] tier "no models" _ :=
    settles_cascade [] tier "no models"
  generalize cascade (askModel statusError post prompt key) [] tier "no models" = c at hsettles ⊢
  cases hsettles with
  | settled htier hbefore hk =>
      have hpassed := passedOver_of_fails hbefore
      rcases answered_of_ok hk with hmodel | ⟨status, content, hmodel, hskip, hstatus, rfl⟩
      · exact .answered htier hpassed hmodel
      · exact .refused htier hpassed hmodel hskip hstatus
  | exhausted h =>
      have hpassed := passedOver_of_fails h
      rcases List.eq_nil_or_concat' tier with rfl | ⟨before, model, rfl⟩
      · cases h
        exact .noModels rfl
      · obtain ⟨-, rfl⟩ := passedOver_of_error h.final
        exact .exhausted rfl hpassed

/-- A chat posts to models of its tier, with the key and the prompt. -/
theorem mem_chat {getenv : Getenv} {modelTier : Option (List String)} {request : Request M}
    (h : request ∈ (chat statusError post prompt getenv modelTier).1) :
    ∃ model ∈ tierOf getenv modelTier, ∃ key, getenv "OPENROUTER_API_KEY" = some key ∧
      request = prompt.request key model := by
  cases hkey : getenv "OPENROUTER_API_KEY" with
  | none => simp [chat, hkey] at h
  | some key =>
      by_cases hne : key = ""
      · simp [chat, hkey, hne] at h
      · have hchatted := chat_keeps statusError post prompt hkey hne modelTier
        generalize hchat : chat statusError post prompt getenv modelTier = chatted at h hchatted
        generalize tierOf getenv modelTier = tier at hchatted ⊢
        cases hchatted with
        | answered htier | refused htier =>
            obtain ⟨model, hmodel, rfl⟩ := List.mem_map.1 h
            rw [htier, List.append_cons]
            exact ⟨model, List.mem_append_left _ hmodel, key, rfl, rfl⟩
        | exhausted htier hpassed =>
            obtain ⟨model, hmodel, rfl⟩ := List.mem_map.1 h
            exact ⟨model, hmodel, key, rfl, rfl⟩
        | noModels htier => cases h

/-- A service that throttles its first request. -/
def throttling : List (Request Unit) → Request Unit → Response
  | [], _ => .answered 429 (.error "no content")
  | _ :: _, _ => .answered 200 (.ok "ok")

/-- An environment with a key. -/
def keyEnv : Getenv := fun key => if key = "OPENROUTER_API_KEY" then some "x" else none

theorem chat_keeps_throttled :
    Chatted (fun _ => "error") throttling ⟨(), 0, false⟩ "x" ["a", "b"]
      (chat (fun _ => "error") throttling ⟨(), 0, false⟩ keyEnv (some ["a", "b"])) :=
  chat_keeps _ throttling _ (rfl : keyEnv "OPENROUTER_API_KEY" = some "x") (by decide)
    (some ["a", "b"])

end Chat

/-! ## The router -/

section Router

variable {F : Type u} [LinearOrder F]

/-- `RouteResult`, but for `measured`. -/
structure RouteResult where
  answer : String
  model : String
  attempts : List String
  escalated : Bool

/-- A router. A call is given the tiers that were called before it. -/
structure CascadeRouter (F : Type u) where
  call : List String → String → String → Except String String
  tiers : List String
  confidence : String → F
  minConfidence : F

/-- The body of the loop of `route`. -/
def CascadeRouter.attempt (router : CascadeRouter F) (prompt : String) (attempts : List String)
    (model : String) : Except String String :=
  match router.call attempts model prompt with
  | .error e => .error (model ++ ": " ++ e)
  | .ok answer =>
      if router.minConfidence ≤ router.confidence answer then .ok answer
      else .error (model ++ ": low confidence")

/-- `route`. -/
def CascadeRouter.route (router : CascadeRouter F) (prompt : String) :
    Except String RouteResult :=
  let cascaded := cascade (router.attempt prompt) [] router.tiers "None"
  match cascaded.outcome with
  | .ok answer =>
      .ok ⟨answer, cascaded.tried.getLastD "", cascaded.tried, 1 < cascaded.tried.length⟩
  | .error last => .error ("all tiers exhausted (" ++ last ++ ")")

end Router

/-! ## What a route comes to -/

section Router

variable {F : Type u} [LinearOrder F] {router : CascadeRouter F} {prompt : String}

/-- A call of a tier raises, or its answer is not confident. -/
def CascadeRouter.Doubted (router : CascadeRouter F) (prompt : String) (attempts : List String)
    (model : String) : Prop :=
  ∀ answer, router.call attempts model prompt = .ok answer →
    router.confidence answer < router.minConfidence

theorem doubted_of_error {attempts : List String} {model why : String}
    (h : router.attempt prompt attempts model = .error why) :
    router.Doubted prompt attempts model := by
  intro answer hanswer
  rw [CascadeRouter.attempt, hanswer] at h
  simp only at h
  split_ifs at h with hconfident
  exact not_le.1 hconfident

theorem confident_of_ok {attempts : List String} {model answer : String}
    (h : router.attempt prompt attempts model = .ok answer) :
    router.call attempts model prompt = .ok answer ∧
      router.minConfidence ≤ router.confidence answer := by
  rw [CascadeRouter.attempt] at h
  cases hanswer : router.call attempts model prompt with
  | error e =>
      rw [hanswer] at h
      cases h
  | ok answer' =>
      rw [hanswer] at h
      simp only at h
      split_ifs at h with hconfident
      obtain rfl := Except.ok.inj h
      exact ⟨rfl, hconfident⟩

/-- **A route** is served by the first tier whose answer is confident, and by no tier when each is
doubted. -/
theorem route_keeps (router : CascadeRouter F) (prompt : String) :
    match router.route prompt with
    | .ok result => ∃ before after, router.tiers = before ++ result.model :: after ∧
        result.attempts = before ++ [result.model] ∧
        (result.escalated = true ↔ before ≠ []) ∧
        router.call before result.model prompt = .ok result.answer ∧
        router.minConfidence ≤ router.confidence result.answer ∧
        ∀ earlier model later, before = earlier ++ model :: later →
          router.Doubted prompt earlier model
    | .error _ => ∀ earlier model later, router.tiers = earlier ++ model :: later →
        router.Doubted prompt earlier model := by
  rw [CascadeRouter.route]
  have hsettles : Settles (router.attempt prompt) [] router.tiers "None" _ :=
    settles_cascade [] router.tiers "None"
  generalize cascade (router.attempt prompt) [] router.tiers "None" = c at hsettles ⊢
  cases hsettles with
  | settled htiers hbefore hk =>
      rename_i before after model final answer
      obtain ⟨hcall, hconfident⟩ := confident_of_ok hk
      have hlast : ([] ++ before ++ [model]).getLastD "" = model := List.getLastD_concat
      refine ⟨before, after, ?_, ?_, ?_, ?_, hconfident, fun earlier model' later heq => ?_⟩
      · rwa [hlast]
      · rw [hlast, List.nil_append]
      · rw [decide_eq_true_iff, List.length_append, List.nil_append, ← List.length_pos_iff]
        exact Nat.lt_add_left_iff_pos
      · rwa [hlast]
      · obtain ⟨why, hwhy⟩ := hbefore.attempted heq
        exact doubted_of_error hwhy
  | exhausted h =>
      intro earlier model later heq
      obtain ⟨why, hwhy⟩ := h.attempted heq
      exact doubted_of_error hwhy

end Router

end DealFinder.Llm
