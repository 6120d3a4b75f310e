/-
# What the worker forwards

A request reaches the backend under its own path, without `/api`, and only past the limiter
of that path (`Passed`). The target is built on the backend's origin from parts that its
setters leave as they are (`fetched_eq`), so the secret goes nowhere else.
-/

import DealFinder.Edge.Key
import DealFinder.Math.UrlParts

namespace DealFinder.Edge

open DealFinder.Math

/-! ## The target -/

/-- `new URL(base.origin)`. -/
def Url.root (base : Url) : Url := { base with pathname := "/", search := "", searchParams := [] }

/-- `url.pathname = value`. -/
def Url.withPathname (url : Url) (value : String) : Url :=
  { url with pathname := setPathname value }

/-- `url.search = value`. -/
def Url.withSearch (url : Url) (value : String) : Url :=
  { url with
    search := setSearch value
    searchParams := (readForm (setSearch value).toList.tail).getD [] }

/-- What `proxy` fetches of a request, the path and the search that it is called with. A
target of another origin is answered with 400. -/
def fetched (env : Env) (sent : Sent) : Option Sent := do
  let base ← readUrl env.backendOrigin
  let target := (base.root.withPathname sent.path).withSearch sent.search
  if target.origin ≠ base.origin then none
  else return {
    sent with
    origin := target.origin
    path := target.pathname
    search := target.search }

/-- A URL as the platform parses one: its path and its query are written as such. -/
structure Parsed (url : Url) : Prop where
  pathname : IsPathname url.pathname
  search : IsSearch url.search

/-- The target is the backend, under the path and the search that are sent. -/
theorem fetched_eq {env : Env} {sent : Sent} {base : Url}
    (hbase : readUrl env.backendOrigin = some base) (hpath : IsPathname sent.path)
    (hsearch : IsSearch sent.search) :
    fetched env sent = some { sent with origin := base.origin } := by
  rw [fetched, hbase]
  simp only [Option.bind_eq_bind, Option.bind_some, Url.withSearch, Url.withPathname, Url.root,
    setPathname_eq hpath, setSearch_eq hsearch]
  exact if_neg (not_not.2 rfl)

/-! ## Paths of the API -/

section Paths

variable {pathname : String}

theorem api_cases (h : routeOf pathname = .api) :
    pathname = "/api" ∨ ∃ rest, pathname.toList = "/api".toList ++ '/' :: rest := by
  rw [routeOf] at h
  split at h
  · next hroute =>
    simp only [Bool.or_eq_true, decide_eq_true_eq, startsWith] at hroute
    exact hroute.imp_right fun ⟨rest, hrest⟩ => ⟨rest, hrest.symm⟩
  · split at h <;> cases h

/-- The backend's path is what follows `/api`. -/
theorem toList_backendPath {rest : List Char} (h : pathname.toList = "/api".toList ++ '/' :: rest) :
    (backendPath pathname).toList = '/' :: rest := by
  have hdrop : pathname.toList.drop 4 = '/' :: rest := by
    rw [h]
    rfl
  have hne : String.ofList ('/' :: rest) ≠ "" := fun heq => by
    cases String.ofList_injective heq
  rw [backendPath, hdrop, if_neg hne, String.toList_ofList]

/-- The path of the backend is written as one. -/
theorem isPathname_backendPath (h : routeOf pathname = .api) (hpath : IsPathname pathname) :
    IsPathname (backendPath pathname) := by
  rcases api_cases h with rfl | ⟨rest, hrest⟩
  · exact ⟨by decide +kernel, List.all_iff_forall_prop.1 (by decide +kernel), by decide +kernel⟩
  · have hlist := toList_backendPath hrest
    constructor
    · rw [hlist]
      rfl
    · intro c hc
      apply hpath.encoded c
      rw [hlist] at hc
      rw [hrest]
      exact List.mem_append_right _ hc
    · intro segment hsegment
      have hsplit : pathname.toList.tail.splitOn '/' = "api".toList :: rest.splitOn '/' := by
        rw [hrest]
        exact List.splitOn_append_cons_self_of_not_mem (by decide) rest
      apply hpath.undotted segment
      rw [hlist, List.tail_cons] at hsegment
      rw [hsplit]
      exact List.mem_cons_of_mem _ hsegment

/-- A path of the API is the backend's with `/api` before it, or nothing but `/api`. -/
theorem backendPath_cases (h : routeOf pathname = .api) :
    pathname = "/api" ++ backendPath pathname ∨ pathname = "/api" ∧ backendPath pathname = "/" := by
  rcases api_cases h with rfl | ⟨rest, hrest⟩
  · exact Or.inr ⟨rfl, by decide +kernel⟩
  · refine Or.inl ?_
    rw [← String.toList_inj, String.toList_append, toList_backendPath hrest, hrest]

end Paths

/-! ## Steps -/

section Steps

variable {τ : Type} [DecidableEq τ] (caseMap : CaseMap) (env : Env)

/-- Where a request goes first, and why. -/
inductive Admitted (request : Request) : Stage → Prop
  | assets : Admitted request (.serving request)
  | limited {retryAfter} (hroute : routeOf request.url.pathname = .api)
      (hsafe : isUnsafePath request.url.pathname = false)
      (hlimiter : limiterOf env request.url.pathname = some retryAfter) :
      Admitted request (.limiting request retryAfter)
  | api (hroute : routeOf request.url.pathname = .api)
      (hsafe : isUnsafePath request.url.pathname = false)
      (hlimiter : limiterOf env request.url.pathname = none) :
      Admitted request (afterLimiters caseMap env request)
  | lab (hroute : routeOf request.url.pathname = .lab)
      (hsafe : isUnsafePath request.url.pathname = false) :
      Admitted request (.fetching request none
        (sentOf env request request.url.pathname request.url.search))

/-- How a task is moved on by a step. -/
inductive Moved (s : State τ) : Event τ → τ → Stage → Prop
  | enter {task request stage} (hadmitted : Admitted caseMap env request stage) :
      Moved s (.arrive task request) task stage
  | pass {task request retryAfter} (hstage : s.stage task = .limiting request retryAfter) :
      Moved s (.limit task true) task (afterLimiters caseMap env request)
  | miss {task request key} (hstage : s.stage task = .matching request key) :
      Moved s (.lookup task) task (.fetching request (some key)
        (sentOf env request (backendPath request.url.pathname) (searchQuery caseMap request.url)))
  | finish {e task} : Moved s e task .idle
  | put {e task request key stored} : Moved s e task (.putting request key stored)

/-- The stages after a step: all as before, or one task moved on. -/
def Moves (s : State τ) (e : Event τ) (stage' : τ → Stage) : Prop :=
  stage' = s.stage ∨
    ∃ task stage, stage' = Function.update s.stage task stage ∧ Moved caseMap env s e task stage

theorem moves_enter (s : State τ) (task : τ) (request : Request) :
    Moves caseMap env s (.arrive task request) (enter caseMap env s task request).2.stage := by
  rw [enter]
  cases hroute : routeOf request.url.pathname with
  | assets => exact Or.inr ⟨task, _, rfl, .enter .assets⟩
  | api =>
      simp only
      split
      · exact Or.inl rfl
      · next hunsafe =>
        have hsafe := Bool.eq_false_iff.2 hunsafe
        split
        · next hlimiter => exact Or.inr ⟨task, _, rfl, .enter (.limited hroute hsafe hlimiter)⟩
        · next hlimiter => exact Or.inr ⟨task, _, rfl, .enter (.api hroute hsafe hlimiter)⟩
  | lab =>
      simp only
      split
      · exact Or.inl rfl
      · next hunsafe =>
        exact Or.inr ⟨task, _, rfl, .enter (.lab hroute (Bool.eq_false_iff.2 hunsafe))⟩

theorem moves_taken {s s' : State τ} {e : Event τ} {effects : List Effect}
    (harrive : ∀ task request, e ≠ .arrive task request)
    (htaken : Taken caseMap env s e effects s') : Moves caseMap env s e s'.stage := by
  cases htaken with
  | refuse => exact absurd rfl (harrive _ _)
  | enter => exact absurd rfl (harrive _ _)
  | pass hstage => exact Or.inr ⟨_, _, rfl, .pass hstage⟩
  | slow | hit | answer | withhold | serve | store => exact Or.inr ⟨_, _, rfl, .finish⟩
  | miss hstage => exact Or.inr ⟨_, _, rfl, .miss hstage⟩
  | share => exact Or.inr ⟨_, _, rfl, .put⟩
  | evict => exact Or.inl rfl

theorem moves_step (s : State τ) (e : Event τ) :
    Moves caseMap env s e (step caseMap env s e).2.stage := by
  cases e with
  | arrive task request =>
      simp only [step]
      split
      · exact moves_enter caseMap env s task request
      · exact Or.inl rfl
  | _ =>
      rcases step_cases caseMap env s _ with hsame | htaken
      · rw [hsame]
        exact Or.inl rfl
      · exact moves_taken caseMap env (fun _ _ heq => by cases heq) htaken

end Steps

/-! ## Limiters -/

section Limiters

variable {τ : Type} [DecidableEq τ] (caseMap : CaseMap) (env : Env)

/-- The state after some events. -/
def after (events : List (Event τ)) : State τ := (machine caseMap env).run (init τ) events

/-- A request passed a limiter: the limiter was asked for it and did not refuse, and its task
has been at it since. -/
def Passed (events : List (Event τ)) (task : τ) (request : Request) (retryAfter : String) : Prop :=
  ∃ before later, events = before ++ .limit task true :: later ∧
    (after caseMap env before).stage task = .limiting request retryAfter ∧
    ∀ more, more <+: later →
      (after caseMap env (before ++ .limit task true :: more)).stage task ≠ .idle

/-- A request of the API whose limiter, if it has one, it passed. -/
structure Clear (events : List (Event τ)) (task : τ) (request : Request) : Prop where
  route : routeOf request.url.pathname = .api
  safe : isUnsafePath request.url.pathname = false
  passed : ∀ retryAfter, limiterOf env request.url.pathname = some retryAfter →
    Passed caseMap env events task request retryAfter

/-- A task may be where it is. -/
def Cleared (events : List (Event τ)) (task : τ) : Stage → Prop
  | .idle | .serving _ | .putting _ _ _ => True
  | .limiting request retryAfter =>
      routeOf request.url.pathname = .api ∧ isUnsafePath request.url.pathname = false ∧
        limiterOf env request.url.pathname = some retryAfter
  | .matching request _ => Clear caseMap env events task request
  | .fetching request _ sent =>
      (Clear caseMap env events task request ∧ ∃ search,
        (search = request.url.search ∨ search = searchQuery caseMap request.url) ∧
          sent = sentOf env request (backendPath request.url.pathname) search) ∨
      (routeOf request.url.pathname = .lab ∧ isUnsafePath request.url.pathname = false ∧
        sent = sentOf env request request.url.pathname request.url.search)

variable {caseMap env} {past : List (Event τ)} {task : τ} {request : Request} {stage : Stage}

theorem after_concat (past : List (Event τ)) (e : Event τ) :
    after caseMap env (past ++ [e]) = (step caseMap env (after caseMap env past) e).2 :=
  Machine.run_concat _ _ _ _

/-- A task that goes on has passed what it passed. -/
theorem Passed.concat {retryAfter : String} {e : Event τ}
    (h : Passed caseMap env past task request retryAfter)
    (hbusy : (after caseMap env (past ++ [e])).stage task ≠ .idle) :
    Passed caseMap env (past ++ [e]) task request retryAfter := by
  obtain ⟨before, later, rfl, hstage, hsince⟩ := h
  refine ⟨before, later ++ [e], by simp, hstage, fun more hmore => ?_⟩
  rcases List.prefix_concat_iff.1 hmore with rfl | hmore
  · simpa using hbusy
  · exact hsince more hmore

theorem Clear.concat {e : Event τ} (h : Clear caseMap env past task request)
    (hbusy : (after caseMap env (past ++ [e])).stage task ≠ .idle) :
    Clear caseMap env (past ++ [e]) task request :=
  ⟨h.route, h.safe, fun retryAfter hlimiter => (h.passed retryAfter hlimiter).concat hbusy⟩

/-- A task that stays where it is may be there. -/
theorem Cleared.concat {e : Event τ} (h : Cleared caseMap env past task stage)
    (hstage : (after caseMap env (past ++ [e])).stage task = stage) :
    Cleared caseMap env (past ++ [e]) task stage := by
  cases stage with
  | matching request key => exact Clear.concat h (by rw [hstage]; nofun)
  | fetching request key sent =>
      exact h.imp_left fun h => ⟨h.1.concat (by rw [hstage]; nofun), h.2⟩
  | _ => exact h

/-- Past the limiters, a request goes on to the cache or to the backend. -/
theorem cleared_afterLimiters (h : Clear caseMap env past task request) :
    Cleared caseMap env past task (afterLimiters caseMap env request) := by
  rw [afterLimiters]
  cases cacheKey caseMap request with
  | none => exact Or.inl ⟨h, _, Or.inl rfl, rfl⟩
  | some key => exact h

theorem afterLimiters_ne_idle : afterLimiters caseMap env request ≠ .idle := by
  intro h
  rw [afterLimiters] at h
  cases hkey : cacheKey caseMap request with
  | none =>
      rw [hkey] at h
      cases h
  | some key =>
      rw [hkey] at h
      cases h

/-- A task that is moved on goes where it may be. -/
theorem cleared_of_moved {e : Event τ}
    (h : ∀ task, Cleared caseMap env past task ((after caseMap env past).stage task))
    (hmoved : Moved caseMap env (after caseMap env past) e task stage)
    (hstage : (after caseMap env (past ++ [e])).stage task = stage) :
    Cleared caseMap env (past ++ [e]) task stage := by
  cases hmoved with
  | enter hadmitted =>
      cases hadmitted with
      | assets => trivial
      | limited hroute hsafe hlimiter => exact ⟨hroute, hsafe, hlimiter⟩
      | api hroute hsafe hnone =>
          refine cleared_afterLimiters ⟨hroute, hsafe, fun retryAfter hsome => ?_⟩
          cases hnone.symm.trans hsome
      | lab hroute hsafe => exact Or.inr ⟨hroute, hsafe, rfl⟩
  | @pass _ request retryAfter hlimiting =>
      have hright := h task
      rw [hlimiting] at hright
      obtain ⟨hroute, hsafe, hlimiter⟩ := hright
      refine cleared_afterLimiters ⟨hroute, hsafe, fun other hother => ?_⟩
      obtain rfl := Option.some_inj.1 (hlimiter.symm.trans hother)
      refine ⟨past, [], rfl, hlimiting, fun more hmore => ?_⟩
      rw [List.prefix_nil.1 hmore, hstage]
      exact afterLimiters_ne_idle
  | miss hmatching =>
      have hright := h task
      rw [hmatching] at hright
      exact Or.inl ⟨Clear.concat hright (by rw [hstage]; nofun), _, Or.inr rfl, rfl⟩
  | finish => trivial
  | put => trivial

/-- Every task of a run may be where it is. -/
theorem cleared_run (events : List (Event τ)) :
    ∀ task, Cleared caseMap env events task ((after caseMap env events).stage task) := by
  refine Machine.run_history (M := machine caseMap env) (s := init τ)
    (P := fun past s => ∀ task, Cleared caseMap env past task (s.stage task)) ?_ ?_ events
  · exact fun task => trivial
  · intro past e h task
    have hnext := @after_concat _ _ caseMap env past e
    have hstay : (after caseMap env (past ++ [e])).stage task =
        (after caseMap env past).stage task →
        Cleared caseMap env (past ++ [e]) task ((after caseMap env (past ++ [e])).stage task) := by
      intro hsame
      rw [hsame]
      exact (h task).concat hsame
    show Cleared caseMap env (past ++ [e]) task
      ((step caseMap env (after caseMap env past) e).2.stage task)
    rw [← hnext]
    rcases moves_step caseMap env (after caseMap env past) e with
      hsame | ⟨other, stage, hmove, hmoved⟩
    · exact hstay (by rw [hnext, hsame])
    · by_cases heq : task = other
      · subst heq
        have hstage : (after caseMap env (past ++ [e])).stage task = stage := by
          rw [hnext, hmove, Function.update_self]
        rw [hstage]
        exact cleared_of_moved h hmoved hstage
      · exact hstay (by rw [hnext, hmove, Function.update_of_ne heq])

end Limiters

/-! ## The search of a key -/

theorem queryEncodes_formByte (b : UInt8) : ∀ c ∈ formByte b, queryEncodes c = false := by
  have hhex : ∀ n < 16, queryEncodes (hexDigit n) = false := by decide
  have hplain : ∀ n < 256, formPlain (UInt8.ofNat n) = true →
      queryEncodes (Char.ofNat n) = false := by decide +kernel
  have hlt := b.toNat_lt
  intro c hc
  rw [formByte_eq] at hc
  split_ifs at hc with hblank hb
  · rw [List.mem_singleton.1 hc]
    decide
  · rw [List.mem_singleton.1 hc]
    exact hplain b.toNat hlt (by rwa [UInt8.ofNat_toNat])
  · rcases List.mem_cons.1 hc with rfl | hc
    · decide
    · rcases List.mem_pair.1 hc with rfl | rfl
      · exact hhex _ (by omega)
      · exact hhex _ (by omega)

/-- The query of a key is written as one. -/
theorem isSearch_searchQuery {caseMap : CaseMap} (url : Url) :
    IsSearch (searchQuery caseMap url) := by
  have htext : ∀ s, ∀ c ∈ (formEncode s).toList, queryEncodes c = false := by
    intro s c hc
    rw [formEncode, String.toList_ofList, List.mem_flatMap] at hc
    obtain ⟨b, -, hc⟩ := hc
    exact queryEncodes_formByte b c hc
  have hwords : (∀ c ∈ "?".toList, queryEncodes c = false) ∧
      (∀ c ∈ "k=".toList, queryEncodes c = false) ∧
        ∀ c ∈ "&q=".toList, queryEncodes c = false :=
    ⟨List.all_iff_forall_prop.1 (by decide), List.all_iff_forall_prop.1 (by decide),
      List.all_iff_forall_prop.1 (by decide)⟩
  obtain ⟨query, hquery⟩ := exists_searchQuery caseMap url
  refine ⟨Or.inr ⟨query, ?_, hquery⟩, fun c hc => ?_⟩
  · rintro rfl
    have hform := @readForm_searchQuery caseMap url
    rw [hquery] at hform
    cases hform
  · simp only [searchQuery, String.toList_append, List.mem_append] at hc
    rcases hc with (((hc | hc) | hc) | hc) | hc
    · exact hwords.1 c hc
    · exact hwords.2.1 c hc
    · exact htext _ c hc
    · exact hwords.2.2 c hc
    · exact htext _ c hc

/-! ## Requests at the backend -/

section Forwarded

variable {τ : Type} [DecidableEq τ] {caseMap : CaseMap} {env : Env} {request : Request}

/-- The secret is the worker's own, whatever was sent. -/
theorem secret_sentOf (path search : String) :
    (sentOf env request path search).headers.get? "x-dealfinder-edge" =
      some env.edgeHeader := by
  have hne : "x-dealfinder-edge" ≠ "cf-connecting-ip" := by decide
  simp only [sentOf]
  split
  · split
    · rw [Dict.get?_set_of_ne _ _ hne, Dict.get?_set_self]
    · exact Dict.get?_set_self _ _ _
  · exact Dict.get?_set_self _ _ _

theorem limiterOf_of_ask {pathname : String} (h : pathname ∈ askPaths)
    (hbound : env.askLimiter = true) : limiterOf env pathname = some "60" := by
  rw [limiterOf, if_pos h, if_pos hbound]

theorem limiterOf_of_stream (hbound : env.streamLimiter = true) :
    limiterOf env streamPath = some "10" := by
  rw [limiterOf, if_neg (by decide +kernel), if_pos rfl, if_pos hbound]

/-- The backend's paths of the limited routes are those routes without `/api`. -/
theorem ask_of_mem {path : String} (h : path ∈ ["/ask", "/ask_agentic", "/review"]) :
    "/api" ++ path ∈ askPaths := by
  simp only [List.mem_cons, List.not_mem_nil, or_false] at h
  rcases h with rfl | rfl | rfl <;> decide +kernel

/-- No limited path of the backend is of the lab. -/
theorem not_lab_of_limited {path : String}
    (h : path ∈ ["/ask", "/ask_agentic", "/review"] ++ ["/search/stream"]) :
    routeOf path ≠ .lab := by
  simp only [List.cons_append, List.nil_append, List.mem_cons, List.not_mem_nil, or_false] at h
  rcases h with rfl | rfl | rfl | rfl <;> decide +kernel

/-- A path without what makes it unsafe. -/
theorem isUnsafePath_eq_false {pathname : String} : isUnsafePath pathname = false ↔
    includes pathname "%" = false ∧ includes pathname "//" = false ∧
      includes pathname "\\" = false := by
  simp only [isUnsafePath, Bool.or_eq_false_iff, and_assoc]

/-- What the worker has fetched of a request. -/
structure Forwards (env : Env) (base : Url) (request : Request) (target : Sent) : Prop where
  origin : target.origin = base.origin
  path : (routeOf request.url.pathname = .api ∧
      (request.url.pathname = "/api" ++ target.path ∨
        request.url.pathname = "/api" ∧ target.path = "/")) ∨
    (routeOf request.url.pathname = .lab ∧ request.url.pathname = target.path)
  secret : target.headers.get? "x-dealfinder-edge" = some env.edgeHeader
  plain : includes request.url.pathname "%" = false ∧ includes request.url.pathname "//" = false ∧
    includes request.url.pathname "\\" = false

/-- Every request that is forwarded goes to the backend under its own path, with the secret,
and past the limiter of that path where there is one. -/
theorem forwards_limited (events : List (Event τ)) {task : τ} {key : Option String} {sent : Sent}
    {base : Url} (hbase : readUrl env.backendOrigin = some base) (hparsed : Parsed request.url)
    (hstage : ((machine caseMap env).run (init τ) events).stage task =
      .fetching request key sent) :
    ∃ target, fetched env sent = some target ∧ Forwards env base request target ∧
      (target.path ∈ ["/ask", "/ask_agentic", "/review"] → env.askLimiter = true →
        Passed caseMap env events task request "60") ∧
      (target.path = "/search/stream" → env.streamLimiter = true →
        Passed caseMap env events task request "10") := by
  have hcleared := @cleared_run τ _ caseMap env events task
  rw [after, hstage] at hcleared
  rcases hcleared with ⟨hclear, search, hsearch, rfl⟩ | ⟨hroute, hsafe, rfl⟩
  · have hpath := isPathname_backendPath hclear.route hparsed.pathname
    have hwritten : IsSearch search := by
      rcases hsearch with rfl | rfl
      · exact hparsed.search
      · exact isSearch_searchQuery request.url
    have hfetched := @fetched_eq env (sentOf env request (backendPath request.url.pathname) search)
      base hbase hpath hwritten
    have hcases := backendPath_cases hclear.route
    have hlimited : backendPath request.url.pathname ≠ "/" →
        request.url.pathname = "/api" ++ backendPath request.url.pathname :=
      fun hne => hcases.resolve_right fun hroot => hne hroot.2
    refine ⟨_, hfetched, ⟨rfl, Or.inl ⟨hclear.route, hcases⟩,
      secret_sentOf (backendPath request.url.pathname) search,
      isUnsafePath_eq_false.1 hclear.safe⟩, ?_, ?_⟩
    · intro hask hbound
      have hpathname : request.url.pathname ∈ askPaths := by
        have hmem : backendPath request.url.pathname ∈ ["/ask", "/ask_agentic", "/review"] := hask
        rw [hlimited fun heq => absurd (heq ▸ hmem) (by decide)]
        exact ask_of_mem hmem
      exact hclear.passed _ (limiterOf_of_ask hpathname hbound)
    · intro hstream hbound
      have heq : backendPath request.url.pathname = "/search/stream" := hstream
      have hpathname : request.url.pathname = streamPath := by
        rw [hlimited fun hroot => absurd (hroot.symm.trans heq) (by decide), heq]
        decide +kernel
      exact hclear.passed _ (hpathname ▸ limiterOf_of_stream hbound)
  · have hfetched := @fetched_eq env (sentOf env request request.url.pathname request.url.search)
      base hbase hparsed.pathname hparsed.search
    refine ⟨_, hfetched, ⟨rfl, Or.inr ⟨hroute, rfl⟩,
      secret_sentOf request.url.pathname request.url.search,
      isUnsafePath_eq_false.1 hsafe⟩, fun hask => ?_, fun hstream => ?_⟩
    · have hmem : request.url.pathname ∈ ["/ask", "/ask_agentic", "/review"] := hask
      exact absurd hroute (not_lab_of_limited (List.mem_append_left _ hmem))
    · have hmem : request.url.pathname ∈ ["/search/stream"] := List.mem_singleton.2 hstream
      exact absurd hroute (not_lab_of_limited (List.mem_append_right _ hmem))

end Forwarded

/-! ## Examples -/

/-- A question. -/
def askRequest : Request where
  method := "GET"
  url := {
    origin := "https://deals.beta.cloudcodetree.com"
    pathname := "/api/ask"
    search := "?q=x"
    searchParams := [("q", "x")]
    plain := by decide +kernel }
  headers := Dict.empty.set "x-dealfinder-edge" "forged"
  body := none

/-- The bindings of the worker, with the limiter of questions or without. A blank got into the
secret. -/
def exampleEnv (askLimiter : Bool) : Env where
  askLimiter := askLimiter
  streamLimiter := true
  backendOrigin := "https://backend.test"
  launched := some "false"
  edgeSharedSecret := ⟨"s3cret ", List.all_iff_forall_prop.1 (by decide +kernel),
    List.all_iff_forall_prop.1 (by decide +kernel)⟩

theorem parsed_askRequest : Parsed askRequest.url where
  pathname := ⟨by decide +kernel, List.all_iff_forall_prop.1 (by decide +kernel),
    by decide +kernel⟩
  search := ⟨Or.inr ⟨"q=x".toList, by decide, by decide +kernel⟩,
    List.all_iff_forall_prop.1 (by decide +kernel)⟩

theorem isSome_backend : (readUrl "https://backend.test").isSome = true := by decide +kernel

/-- A question that its limiter let through. -/
theorem forwards_limited_ask : ∃ target,
    fetched (exampleEnv true) (sentOf (exampleEnv true) askRequest "/ask" "?q=x") = some target ∧
      Forwards (exampleEnv true) ((readUrl "https://backend.test").get isSome_backend) askRequest
        target ∧
      (target.path ∈ ["/ask", "/ask_agentic", "/review"] → (exampleEnv true).askLimiter = true →
        Passed asciiCasing.toCaseMap (exampleEnv true)
          [.arrive () askRequest, .limit () true] () askRequest "60") ∧
      (target.path = "/search/stream" → (exampleEnv true).streamLimiter = true →
        Passed asciiCasing.toCaseMap (exampleEnv true)
          [.arrive () askRequest, .limit () true] () askRequest "10") :=
  @forwards_limited Unit _ asciiCasing.toCaseMap (exampleEnv true) askRequest
    [.arrive () askRequest, .limit () true] () none _ _ (Option.some_get isSome_backend).symm
    parsed_askRequest (by rfl)

/-- Without a limiter bound a question is forwarded, and no limiter was asked. The blank of the
secret is not sent. -/
theorem unbound_limiter_skipped :
    ((machine asciiCasing.toCaseMap (exampleEnv false)).run (init Unit)
      [.arrive () askRequest]).stage () =
        .fetching askRequest none (sentOf (exampleEnv false) askRequest "/ask" "?q=x") ∧
    ((fetched (exampleEnv false) (sentOf (exampleEnv false) askRequest "/ask" "?q=x")).map
      Sent.path) = some "/ask" ∧
    (∀ retryAfter, ¬Passed asciiCasing.toCaseMap (exampleEnv false) [.arrive () askRequest] ()
      askRequest retryAfter) ∧
    (sentOf (exampleEnv false) askRequest "/ask" "?q=x").headers.get? "x-dealfinder-edge" ≠
      some (exampleEnv false).edgeSharedSecret.text := by
  refine ⟨by rfl, by decide +kernel, ?_, by decide +kernel⟩
  rintro retryAfter ⟨before, later, hevents, -⟩
  cases before with
  | nil => cases hevents
  | cons e before =>
      have hnil := (List.cons.inj hevents).2
      exact absurd hnil (List.append_ne_nil_of_right_ne_nil before (List.cons_ne_nil _ _)).symm

end DealFinder.Edge
