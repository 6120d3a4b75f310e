/-
# Concurrent requests

The worker serves any number of requests at once, each in a task. A task waits at one
place at a time: for a limiter, the cache, the backend, the assets, or for its write to
the cache, which goes on after the response. An event lets one task take its next step,
or evicts an entry of the cache; an event that its task does not wait for changes
nothing. Every list of events is a schedule.
-/

import DealFinder.Edge.Worker
import DealFinder.Math.Machine
import Mathlib.Logic.Function.Basic

namespace DealFinder.Edge

open DealFinder.Math

/-- Where a task is. -/
inductive Stage
  | idle
  /-- At `limiter.limit`. -/
  | limiting (request : Request) (retryAfter : String)
  /-- At `cache.match`. -/
  | matching (request : Request) (key : String)
  /-- At `fetch`, with the key that an answer may be cached under. -/
  | fetching (request : Request) (key : Option String) (sent : Sent)
  /-- At `env.ASSETS.fetch`. -/
  | serving (request : Request)
  /-- Answered, at `cache.put`. -/
  | putting (request : Request) (key : String) (stored : Response)

/-- What happens. A backend that does not answer makes `fetch` throw. -/
inductive Event (τ : Type)
  | arrive (task : τ) (request : Request)
  | limit (task : τ) (success : Bool)
  | lookup (task : τ)
  | backend (task : τ) (outcome : Option Response)
  | asset (task : τ) (res : Response)
  | store (task : τ)
  | evict (key : String)

/-- What a step does outside its task. -/
inductive Effect
  | matched (request : Request) (key : String)
  | put (request : Request) (key : String)
  | responded (request : Request) (res : Response)

/-- The cache, and where each task is. -/
structure State (τ : Type) where
  cache : Dict String Response
  stage : τ → Stage

/-- An empty cache, and nothing to serve. -/
def init (τ : Type) : State τ := ⟨.empty, fun _ => .idle⟩

section Step

variable {τ : Type} [DecidableEq τ] (caseMap : CaseMap) (env : Env)

/-- `url.pathname.slice('/api'.length) || '/'`. -/
def backendPath (pathname : String) : String :=
  let rest := String.ofList (pathname.toList.drop 4)
  if rest = "" then "/" else rest

/-- `api`, past the limiters. -/
def afterLimiters (request : Request) : Stage :=
  match cacheKey caseMap request with
  | none =>
      .fetching request none (sentOf env request (backendPath request.url.pathname)
        request.url.search)
  | some key => .matching request key

/-- A task goes on. -/
def State.goOn (s : State τ) (task : τ) (stage : Stage) : State τ :=
  { s with stage := Function.update s.stage task stage }

@[simp]
theorem stage_goOn_self (s : State τ) (task : τ) (stage : Stage) :
    (s.goOn task stage).stage task = stage := Function.update_self ..

theorem stage_goOn_of_ne (s : State τ) {task other : τ} (hne : other ≠ task) (stage : Stage) :
    (s.goOn task stage).stage other = s.stage other := Function.update_of_ne hne ..

/-- The response to a request. -/
def respond (request : Request) (res : Response) : Effect :=
  .responded request (withSiteHeaders env res)

/-- What a request does up to the first place where it waits. -/
def enter (s : State τ) (task : τ) (request : Request) : List Effect × State τ :=
  let pathname := request.url.pathname
  match routeOf pathname with
  | .assets => ([], s.goOn task (.serving request))
  | .api =>
      if isUnsafePath pathname then ([respond env request (json "bad path" 400 .empty)], s)
      else
        match limiterOf env pathname with
        | some retryAfter => ([], s.goOn task (.limiting request retryAfter))
        | none => ([], s.goOn task (afterLimiters caseMap env request))
  | .lab =>
      if isUnsafePath pathname then ([respond env request (json "bad path" 400 .empty)], s)
      else
        ([], s.goOn task (.fetching request none (sentOf env request pathname request.url.search)))

/-- What a task does with the backend's answer. -/
def answer (s : State τ) (task : τ) (request : Request) (key : Option String)
    (outcome : Option Response) : List Effect × State τ :=
  let res := proxied outcome
  match key with
  | none => ([respond env request res], s.goOn task .idle)
  | some key =>
      ([respond env request (marked "MISS" res)],
        s.goOn task (if shareable caseMap res then .putting request key (storedOf res) else .idle))

/-- One step. -/
def step (s : State τ) : Event τ → List Effect × State τ
  | .arrive task request =>
      match s.stage task with
      | .idle => enter caseMap env s task request
      | _ => ([], s)
  | .limit task success =>
      match s.stage task with
      | .limiting request retryAfter =>
          if success then ([], s.goOn task (afterLimiters caseMap env request))
          else ([respond env request (slowDown retryAfter)], s.goOn task .idle)
      | _ => ([], s)
  | .lookup task =>
      match s.stage task with
      | .matching request key =>
          match s.cache.get? key with
          | some hit =>
              ([.matched request key, respond env request (marked "HIT" hit)], s.goOn task .idle)
          | none =>
              ([.matched request key], s.goOn task (.fetching request (some key)
                (sentOf env request (backendPath request.url.pathname)
                  (searchQuery caseMap request.url))))
      | _ => ([], s)
  | .backend task outcome =>
      match s.stage task with
      | .fetching request key _ => answer caseMap env s task request key outcome
      | _ => ([], s)
  | .asset task res =>
      match s.stage task with
      | .serving request => ([respond env request res], s.goOn task .idle)
      | _ => ([], s)
  | .store task =>
      match s.stage task with
      | .putting request key stored =>
          ([.put request key], { s.goOn task .idle with cache := s.cache.set key stored })
      | _ => ([], s)
  | .evict key => ([], { s with cache := s.cache.eraseAll [key] })

/-- The worker as a machine driven by a schedule. -/
def machine : Machine (State τ) (Event τ) (List Effect) := ⟨step caseMap env⟩

/-! ## What a step does -/

/-- Where a request goes first when its path is safe. -/
inductive Entered (request : Request) : Stage → Prop
  | assets (hroute : routeOf request.url.pathname = .assets) : Entered request (.serving request)
  | limited (retryAfter : String) : Entered request (.limiting request retryAfter)
  | api : Entered request (afterLimiters caseMap env request)
  | lab (hroute : routeOf request.url.pathname = .lab) :
      Entered request (.fetching request none
        (sentOf env request request.url.pathname request.url.search))

/-- The steps that the worker takes, by name. -/
inductive Taken (s : State τ) : Event τ → List Effect → State τ → Prop
  | refuse {task request} :
      Taken s (.arrive task request) [respond env request (json "bad path" 400 .empty)] s
  | enter {task request stage} (hentered : Entered caseMap env request stage) :
      Taken s (.arrive task request) [] (s.goOn task stage)
  | pass {task request retryAfter} (hstage : s.stage task = .limiting request retryAfter) :
      Taken s (.limit task true) [] (s.goOn task (afterLimiters caseMap env request))
  | slow {task request retryAfter} (hstage : s.stage task = .limiting request retryAfter) :
      Taken s (.limit task false) [respond env request (slowDown retryAfter)] (s.goOn task .idle)
  | hit {task request key found} (hstage : s.stage task = .matching request key)
      (hcached : s.cache.get? key = some found) :
      Taken s (.lookup task) [.matched request key, respond env request (marked "HIT" found)]
        (s.goOn task .idle)
  | miss {task request key} (hstage : s.stage task = .matching request key) :
      Taken s (.lookup task) [.matched request key] (s.goOn task (.fetching request (some key)
        (sentOf env request (backendPath request.url.pathname) (searchQuery caseMap request.url))))
  | answer {task request sent outcome} (hstage : s.stage task = .fetching request none sent) :
      Taken s (.backend task outcome) [respond env request (proxied outcome)] (s.goOn task .idle)
  | share {task request key sent outcome}
      (hstage : s.stage task = .fetching request (some key) sent)
      (hshare : shareable caseMap (proxied outcome) = true) :
      Taken s (.backend task outcome) [respond env request (marked "MISS" (proxied outcome))]
        (s.goOn task (.putting request key (storedOf (proxied outcome))))
  | withhold {task request key sent outcome}
      (hstage : s.stage task = .fetching request (some key) sent) :
      Taken s (.backend task outcome) [respond env request (marked "MISS" (proxied outcome))]
        (s.goOn task .idle)
  | serve {task request res} (hstage : s.stage task = .serving request) :
      Taken s (.asset task res) [respond env request res] (s.goOn task .idle)
  | store {task request key stored} (hstage : s.stage task = .putting request key stored) :
      Taken s (.store task) [.put request key]
        { s.goOn task .idle with cache := s.cache.set key stored }
  | evict {key} : Taken s (.evict key) [] { s with cache := s.cache.eraseAll [key] }

/-- A request is let in, or its path is refused. -/
theorem taken_enter (s : State τ) (task : τ) (request : Request) :
    Taken caseMap env s (.arrive task request) (enter caseMap env s task request).1
      (enter caseMap env s task request).2 := by
  rw [enter]
  cases hroute : routeOf request.url.pathname with
  | assets => exact .enter (.assets hroute)
  | api =>
      simp only
      split
      · exact .refuse
      split
      · exact .enter (.limited _)
      · exact .enter .api
  | lab =>
      simp only
      split
      · exact .refuse
      · exact .enter (.lab hroute)

/-- A step is one of these, or changes nothing. -/
theorem step_cases (s : State τ) (e : Event τ) :
    step caseMap env s e = ([], s) ∨
      Taken caseMap env s e (step caseMap env s e).1 (step caseMap env s e).2 := by
  cases e with
  | arrive task request =>
      simp only [step]
      split
      · exact Or.inr (taken_enter caseMap env s task request)
      · exact Or.inl rfl
  | limit task success =>
      simp only [step]
      split
      · next hstage =>
        cases success with
        | true => exact Or.inr (.pass hstage)
        | false => exact Or.inr (.slow hstage)
      · exact Or.inl rfl
  | lookup task =>
      simp only [step]
      split
      · next hstage =>
        split
        · next hcached => exact Or.inr (.hit hstage hcached)
        · exact Or.inr (.miss hstage)
      · exact Or.inl rfl
  | backend task outcome =>
      simp only [step]
      split
      · next request key sent hstage =>
        cases key with
        | none => exact Or.inr (.answer hstage)
        | some key =>
            simp only [answer]
            split
            · next hshare => exact Or.inr (.share hstage hshare)
            · exact Or.inr (.withhold hstage)
      · exact Or.inl rfl
  | asset task res =>
      simp only [step]
      split
      · next hstage => exact Or.inr (.serve hstage)
      · exact Or.inl rfl
  | store task =>
      simp only [step]
      split
      · next hstage => exact Or.inr (.store hstage)
      · exact Or.inl rfl
  | evict key => exact Or.inr .evict

end Step

end DealFinder.Edge
