/-
# The edge cache leaks nothing

A key is written only with what the backend answered to the query that the key spells,
asked without credentials (`Answered`), because the key and the query sent are one text
and a key spells its origin and query uniquely (`searchCacheKey_inj`). So a hit for a request with
a key carries the body of such an answer, and a request without one does not touch the cache
(`hits_sound`).
-/

import DealFinder.Edge.Tasks

namespace DealFinder.Edge

open DealFinder.Math

/-! ## Keys -/

section Keys

variable {caseMap : CaseMap} {env : Env} {request : Request} {key : String}

theorem exists_searchQuery (caseMap : CaseMap) (url : Url) :
    ∃ tail, (searchQuery caseMap url).toList = '?' :: tail := by
  simp only [searchQuery, String.toList_append, List.append_assoc]
  exact ⟨_, rfl⟩

theorem toList_searchCacheKey {url : Url} (h : searchCacheKey caseMap url = some key) :
    key.toList = (url.origin.toList ++ "/api/search".toList) ++
      (searchQuery caseMap url).toList := by
  rw [searchCacheKey] at h
  split at h
  · cases h
  · rw [← Option.some.inj h, String.toList_append, String.toList_append]

/-- A key spells its origin and its query. -/
theorem searchCacheKey_inj {url other : Url} (h : searchCacheKey caseMap url = some key)
    (h' : searchCacheKey caseMap other = some key) :
    url.origin = other.origin ∧ searchQuery caseMap url = searchQuery caseMap other := by
  have hplain : ∀ url : Url, '?' ∉ url.origin.toList ++ "/api/search".toList := by
    intro url hmem
    rcases List.mem_append.1 hmem with hmem | hmem
    · exact url.plain hmem
    · exact absurd hmem (by decide)
  have hkeys := (toList_searchCacheKey h).symm.trans (toList_searchCacheKey h')
  have hfront : url.origin.toList ++ "/api/search".toList =
      other.origin.toList ++ "/api/search".toList := by
    obtain ⟨tail, htail⟩ := exists_searchQuery caseMap url
    obtain ⟨tail', htail'⟩ := exists_searchQuery caseMap other
    have hcut := congrArg (List.takeWhile (· ≠ '?')) hkeys
    rwa [htail, htail', takeWhile_ne_append (hplain url),
      takeWhile_ne_append (hplain other)] at hcut
  rw [hfront] at hkeys
  exact ⟨String.toList_injective (List.append_cancel_right hfront),
    String.toList_injective (List.append_cancel_left hkeys)⟩

/-- A request with a key is an anonymous `GET` of the search. -/
theorem cacheKey_eq_some_iff :
    cacheKey caseMap request = some key ↔ searchCacheKey caseMap request.url = some key ∧
      request.method = "GET" ∧ "authorization" ∉ request.headers := by
  rw [cacheKey]
  cases searchCacheKey caseMap request.url with
  | none => simp
  | some found =>
      by_cases hget : request.method = "GET" <;>
        by_cases hauth : "authorization" ∈ request.headers <;> simp [hget, hauth]

theorem pathname_of_cacheKey (h : cacheKey caseMap request = some key) :
    request.url.pathname = "/api/search" := by
  have hkey := (cacheKey_eq_some_iff.1 h).1
  rw [searchCacheKey] at hkey
  split at hkey
  · cases hkey
  · next heq => exact not_not.1 heq

theorem cacheKey_eq_none_of_route (h : routeOf request.url.pathname ≠ .api) :
    cacheKey caseMap request = none := by
  cases hkey : cacheKey caseMap request with
  | none => rfl
  | some key =>
      rw [pathname_of_cacheKey hkey] at h
      exact absurd (by decide +kernel) h

/-- Credentials are sent on, and never added. -/
theorem authorization_sentOf (backendPath search : String) :
    "authorization" ∈ (sentOf env request backendPath search).headers ↔
      "authorization" ∈ request.headers := by
  have hhost : "authorization" ∈ request.headers.eraseAll ["host"] ↔
      "authorization" ∈ request.headers := by
    rw [← Dict.get?_isSome_iff, Dict.get?_eraseAll, if_neg (by decide), Dict.get?_isSome_iff]
  have hset : ∀ (headers : Headers) (name value : String), "authorization" ≠ name →
      ("authorization" ∈ headers.set name value ↔ "authorization" ∈ headers) :=
    fun headers name value hne => Dict.mem_set.trans (or_iff_right hne)
  simp only [sentOf]
  split
  · split
    · rw [hset _ _ _ (by decide), hset _ _ _ (by decide), hhost]
    · rw [hset _ _ _ (by decide), hhost]
  · rw [hset _ _ _ (by decide), hhost]

end Keys

/-! ## Answers -/

section Answers

variable {caseMap : CaseMap} {env : Env}

/-- What is shareable is the backend's own answer, with status 200. -/
theorem proxied_of_shareable {outcome : Option Response}
    (h : shareable caseMap (proxied outcome) = true) :
    ∃ reply, outcome = some reply ∧ proxied outcome = reply ∧ reply.status = 200 := by
  have hstatus : (proxied outcome).status = 200 := by
    simp only [shareable, Bool.and_eq_true, decide_eq_true_iff] at h
    exact h.1.1
  cases outcome with
  | none => cases hstatus
  | some reply =>
      rw [proxied] at hstatus ⊢
      split at hstatus
      · cases hstatus
      · next hok =>
        rw [if_neg hok]
        exact ⟨reply, rfl, rfl, hstatus⟩

/-- A text of ASCII without capitals is in lower case. -/
theorem toLowerCase_of_ascii {s : String}
    (h : (s.toList.all fun c => c.toNat < 128 && c.toLower = c) = true) :
    caseMap.toLowerCase s = s := by
  simp only [List.all_eq_true, Bool.and_eq_true, decide_eq_true_iff] at h
  have hsame : s.toList.map Char.toLower = s.toList := by
    apply (List.map_congr_left fun c hc => (h c hc).2).trans
    exact List.map_id _
  rw [caseMap.ascii s fun c hc => (h c hc).1, hsame, String.ofList_toList]

/-- The backend marks what must not be shared. -/
theorem not_degraded_of_shareable {reply : Response} {authorization degraded : Bool}
    (h : shareable caseMap reply = true)
    (hcc : reply.headers.get? "cache-control" =
      some (searchCacheControl authorization degraded)) :
    authorization = false ∧ degraded = false := by
  simp only [shareable, hcc, Option.getD_some, Bool.and_eq_true, Bool.not_eq_true'] at h
  obtain ⟨⟨-, hstore⟩, -⟩ := h
  cases authorization with
  | true =>
      have hlower : caseMap.toLowerCase "private, no-store" = "private, no-store" :=
        toLowerCase_of_ascii (by decide +kernel)
      rw [searchCacheControl, if_pos rfl, hlower] at hstore
      exact absurd hstore (by decide +kernel)
  | false =>
      cases degraded with
      | true =>
          have hlower : caseMap.toLowerCase "no-store" = "no-store" :=
            toLowerCase_of_ascii (by decide +kernel)
          rw [searchCacheControl, if_neg (by decide), if_pos rfl, hlower] at hstore
          exact absurd hstore (by decide +kernel)
      | false => exact ⟨rfl, rfl⟩

/-- The worker's own responses are not marked. -/
theorem mark_withSiteHeaders (res : Response) :
    (withSiteHeaders env res).headers.get? "x-dealfinder-cache" =
      res.headers.get? "x-dealfinder-cache" := by
  have hset : ∀ (headers : Headers) (name value : String), "x-dealfinder-cache" ≠ name →
      (headers.set name value).get? "x-dealfinder-cache" = headers.get? "x-dealfinder-cache" :=
    fun headers name value hne => Dict.get?_set_of_ne headers value hne
  simp only [withSiteHeaders]
  split
  · rw [hset _ _ _ (by decide), hset _ _ _ (by decide), hset _ _ _ (by decide)]
  · rw [hset _ _ _ (by decide), hset _ _ _ (by decide)]

end Answers

/-! ## Runs -/

section Run

variable {τ : Type} [DecidableEq τ] (caseMap : CaseMap) (env : Env)

/-- The backend answered a task that asked for a key, and what it said may be shared. -/
def Answered (events : List (Event τ)) (key body : String) : Prop :=
  ∃ past task reply later source sent, events = past ++ .backend task (some reply) :: later ∧
    ((machine caseMap env).run (init τ) past).stage task = .fetching source (some key) sent ∧
    reply.status = 200 ∧ shareable caseMap reply = true ∧ reply.body = body

/-- A task may be where it is. -/
def Rightly (events : List (Event τ)) : Stage → Prop
  | .idle | .limiting _ _ => True
  | .matching request key => cacheKey caseMap request = some key
  | .fetching request none _ | .serving request => cacheKey caseMap request = none
  | .fetching request (some key) sent => cacheKey caseMap request = some key ∧
      sent = sentOf env request "/search" (searchQuery caseMap request.url)
  | .putting request key stored => cacheKey caseMap request = some key ∧
      Answered caseMap env events key stored.body

/-- What is cached was answered, and every task is rightly where it is. -/
structure Sound (events : List (Event τ)) (s : State τ) : Prop where
  cached : ∀ key res, s.cache.get? key = some res → Answered caseMap env events key res.body
  stages : ∀ task, Rightly caseMap env events (s.stage task)

variable {caseMap env} {past : List (Event τ)} {s : State τ} {task : τ} {stage : Stage}

theorem Answered.concat {key body : String} (h : Answered caseMap env past key body)
    (e : Event τ) : Answered caseMap env (past ++ [e]) key body := by
  obtain ⟨first, task, reply, later, source, sent, rfl, h⟩ := h
  exact ⟨first, task, reply, later ++ [e], source, sent, by simp, h⟩

theorem Rightly.concat (h : Rightly caseMap env past stage) (e : Event τ) :
    Rightly caseMap env (past ++ [e]) stage := by
  cases stage with
  | putting request key stored => exact ⟨h.1, h.2.concat e⟩
  | fetching request key sent => cases key <;> exact h
  | _ => exact h

/-- A task goes where it may be. -/
theorem Sound.goOn (h : Sound caseMap env past s) (e : Event τ)
    (hstage : Rightly caseMap env (past ++ [e]) stage) :
    Sound caseMap env (past ++ [e]) (s.goOn task stage) where
  cached key res hres := (h.cached key res hres).concat e
  stages other := by
    by_cases heq : other = task
    · subst heq
      rwa [stage_goOn_self]
    · rw [stage_goOn_of_ne s heq]
      exact (h.stages other).concat e

theorem Sound.rightly (h : Sound caseMap env past s) (hstage : s.stage task = stage) :
    Rightly caseMap env past stage :=
  hstage ▸ h.stages task

theorem Sound.concat (h : Sound caseMap env past s) (e : Event τ) :
    Sound caseMap env (past ++ [e]) s where
  cached key res hres := (h.cached key res hres).concat e
  stages other := (h.stages other).concat e

/-- Past the limiters, a task matches a key of its own, or asks for none. -/
theorem rightly_afterLimiters (events : List (Event τ)) (request : Request) :
    Rightly caseMap env events (afterLimiters caseMap env request) := by
  rw [afterLimiters]
  cases hkey : cacheKey caseMap request <;> exact hkey

theorem backendPath_search : backendPath "/api/search" = "/search" := by decide +kernel

theorem rightly_of_entered {request : Request} (h : Entered caseMap env request stage)
    (events : List (Event τ)) : Rightly caseMap env events stage := by
  cases h with
  | assets hroute => exact cacheKey_eq_none_of_route (by rw [hroute]; decide)
  | limited retryAfter => trivial
  | api => exact rightly_afterLimiters events request
  | lab hroute => exact cacheKey_eq_none_of_route (by rw [hroute]; decide)

/-- The invariant is kept by every step of a run. -/
theorem Sound.taken (h : Sound caseMap env past ((machine caseMap env).run (init τ) past))
    {e : Event τ} {effects : List Effect} {s : State τ}
    (htaken : Taken caseMap env ((machine caseMap env).run (init τ) past) e effects s) :
    Sound caseMap env (past ++ [e]) s := by
  cases htaken with
  | refuse => exact h.concat _
  | enter hentered => exact h.goOn _ (rightly_of_entered hentered _)
  | pass hstage => exact h.goOn _ (rightly_afterLimiters _ _)
  | slow | hit | answer | withhold | serve => exact h.goOn _ trivial
  | miss hstage =>
      have hkey := h.rightly hstage
      apply h.goOn
      rw [pathname_of_cacheKey hkey, backendPath_search]
      exact ⟨hkey, rfl⟩
  | share hstage hshare =>
      obtain ⟨reply, rfl, hreply, hstatus⟩ := proxied_of_shareable hshare
      have hright := h.rightly hstage
      rw [hreply] at hshare ⊢
      exact h.goOn _ ⟨hright.1, past, _, reply, [], _, _, rfl, hstage, hstatus, hshare, rfl⟩
  | @store task request key stored hstage =>
      have hright := h.rightly hstage
      have hafter := @Sound.goOn _ _ caseMap env past _ task .idle h (.store task) trivial
      constructor
      · intro other res hres
        simp only [Dict.get?_set] at hres
        split at hres
        · next heq =>
          rw [heq, ← Option.some.inj hres]
          exact hright.2.concat _
        · exact hafter.cached other res hres
      · exact hafter.stages
  | evict =>
      constructor
      · intro other res hres
        exact (h.concat _).cached other res (Dict.get?_of_filter hres)
      · exact (h.concat _).stages

theorem sound_run (events : List (Event τ)) :
    Sound caseMap env events ((machine caseMap env).run (init τ) events) := by
  apply Machine.run_history (P := Sound caseMap env)
  · constructor
    · intro key res hres
      cases hres
    · exact fun task => trivial
  · intro past e hpast
    rcases step_cases caseMap env ((machine caseMap env).run (init τ) past) e with hsame | htaken
    · exact (congrArg Prod.snd hsame).symm ▸ hpast.concat e
    · exact hpast.taken htaken

end Run

/-! ## What a visitor gets -/

/-- The backend's answer to an anonymous search for the query of a request, which may be
shared. -/
structure SharedAnswer (caseMap : CaseMap) (request source : Request) (sent : Sent)
    (reply : Response) : Prop where
  origin : source.url.origin = request.url.origin
  method : sent.method = "GET"
  anonymous : "authorization" ∉ sent.headers
  path : sent.path = "/search"
  search : sent.search = searchQuery caseMap request.url
  status : reply.status = 200
  noStore : includes (caseMap.toLowerCase ((reply.headers.get? "cache-control").getD ""))
    "no-store" = false
  noPrivate : includes (caseMap.toLowerCase ((reply.headers.get? "cache-control").getD ""))
    "private" = false

/-- The answer to what was rightly asked for a request's key. -/
theorem sharedAnswer_of_rightly {caseMap : CaseMap} {env : Env} {request source : Request}
    {sent : Sent} {reply : Response} {key : String}
    (h : cacheKey caseMap source = some key ∧
      sent = sentOf env source "/search" (searchQuery caseMap source.url))
    (hkey : cacheKey caseMap request = some key) (hshare : shareable caseMap reply = true) :
    SharedAnswer caseMap request source sent reply := by
  obtain ⟨hsource, rfl⟩ := h
  obtain ⟨hurl, hget, hanonymous⟩ := cacheKey_eq_some_iff.1 hsource
  obtain ⟨horigin, hquery⟩ := searchCacheKey_inj hurl (cacheKey_eq_some_iff.1 hkey).1
  simp only [shareable, Bool.and_eq_true, decide_eq_true_iff, Bool.not_eq_true'] at hshare
  obtain ⟨⟨hstatus, hstore⟩, hprivate⟩ := hshare
  exact ⟨horigin, hget, mt (authorization_sentOf _ _).1 hanonymous, rfl, hquery, hstatus, hstore,
    hprivate⟩

section Effects

variable {τ : Type} [DecidableEq τ] {caseMap : CaseMap} {env : Env} {past : List (Event τ)}
variable {s : State τ} {request : Request} {res : Response} {key : String} {e : Event τ}

/-- The mark of the cache on a response. -/
def Response.isHit (res : Response) : Prop := res.headers.get? "x-dealfinder-cache" = some "HIT"

theorem mem_respond {found : Request} {sent : Response} :
    .responded request res ∈ [respond env found sent] ↔
      request = found ∧ res = withSiteHeaders env sent := by
  rw [List.mem_singleton, respond, Effect.responded.injEq]

theorem isHit_withSiteHeaders : (withSiteHeaders env res).isHit ↔ res.isHit := by
  rw [Response.isHit, mark_withSiteHeaders, Response.isHit]

theorem isHit_marked {mark : String} : (marked mark res).isHit ↔ mark = "HIT" := by
  rw [Response.isHit, marked, Dict.get?_set_self, Option.some.injEq]

/-- A response of the worker's own is no hit. -/
theorem not_isHit_json {detail : String} {status : ℕ} {headers : Headers}
    (h : headers.get? "x-dealfinder-cache" = none) : ¬ (json detail status headers).isHit := by
  intro hhit
  have hnone : ((Dict.empty : Headers).set "content-type" "application/json").get?
      "x-dealfinder-cache" = none := by decide
  rw [Response.isHit, json, Dict.get?_update, h, hnone] at hhit
  cases hhit

/-- What `proxy` returns has the backend's mark, if any. -/
theorem isHit_proxied {outcome : Option Response} (h : (proxied outcome).isHit) :
    ∃ reply, outcome = some reply ∧ reply.isHit := by
  cases outcome with
  | none => exact absurd h (not_isHit_json rfl)
  | some reply =>
      rw [proxied] at h
      split at h
      · exact absurd h (not_isHit_json rfl)
      · exact ⟨reply, rfl, h⟩

/-- A response marked as a hit is one, or passes on the mark that it came with. -/
theorem Taken.hit_cases {effects : List Effect} {s' : State τ}
    (htaken : Taken caseMap env s e effects s') (h : Sound caseMap env past s)
    (hmem : .responded request res ∈ effects) (hhit : res.isHit) :
    (∃ key hit, cacheKey caseMap request = some key ∧ s.cache.get? key = some hit ∧
      hit.body = res.body) ∨
    cacheKey caseMap request = none ∧
      ∃ task reply, (e = .backend task (some reply) ∨ e = .asset task reply) ∧ reply.isHit := by
  cases htaken with
  | enter | pass | evict => cases hmem
  | miss | store => cases List.mem_singleton.1 hmem
  | refuse | slow =>
      obtain ⟨rfl, rfl⟩ := mem_respond.1 hmem
      exact absurd (isHit_withSiteHeaders.1 hhit) (not_isHit_json rfl)
  | hit hstage hcached =>
      rcases List.mem_cons.1 hmem with hmatched | hresponse
      · cases hmatched
      · obtain ⟨rfl, rfl⟩ := mem_respond.1 hresponse
        exact Or.inl ⟨_, _, h.rightly hstage, hcached, rfl⟩
  | answer hstage =>
      obtain ⟨rfl, rfl⟩ := mem_respond.1 hmem
      obtain ⟨reply, rfl, hreply⟩ := isHit_proxied (isHit_withSiteHeaders.1 hhit)
      exact Or.inr ⟨h.rightly hstage, _, reply, Or.inl rfl, hreply⟩
  | share | withhold =>
      obtain ⟨rfl, rfl⟩ := mem_respond.1 hmem
      exact absurd (isHit_marked.1 (isHit_withSiteHeaders.1 hhit)) (by decide)
  | serve hstage =>
      obtain ⟨rfl, rfl⟩ := mem_respond.1 hmem
      exact Or.inr ⟨h.rightly hstage, _, _, Or.inr rfl, isHit_withSiteHeaders.1 hhit⟩

/-- The cache is read or written for a request with a key, and under that key. -/
theorem Taken.cacheKey_of_touch {effects : List Effect} {s' : State τ}
    (htaken : Taken caseMap env s e effects s') (h : Sound caseMap env past s)
    (hmem : .matched request key ∈ effects ∨ .put request key ∈ effects) :
    cacheKey caseMap request = some key := by
  cases htaken with
  | enter | pass | evict => exact hmem.elim nofun nofun
  | refuse | slow | answer | share | withhold | serve =>
      rcases hmem with hmatched | hput
      · cases List.mem_singleton.1 hmatched
      · cases List.mem_singleton.1 hput
  | hit hstage hcached =>
      rcases hmem with hmatched | hput
      · rcases List.mem_cons.1 hmatched with hmatched | hresponse
        · cases hmatched
          exact h.rightly hstage
        · cases List.mem_singleton.1 hresponse
      · rcases List.mem_cons.1 hput with hmatched | hresponse
        · cases hmatched
        · cases List.mem_singleton.1 hresponse
  | miss hstage =>
      rcases hmem with hmatched | hput
      · cases List.mem_singleton.1 hmatched
        exact h.rightly hstage
      · cases List.mem_singleton.1 hput
  | store hstage =>
      rcases hmem with hmatched | hput
      · cases List.mem_singleton.1 hmatched
      · cases List.mem_singleton.1 hput
        exact (h.rightly hstage).1

/-- What a step does to the cache: nothing, or an eviction, or a write. -/
theorem Taken.cache_eq {effects : List Effect} {s' : State τ}
    (htaken : Taken caseMap env s e effects s') :
    s'.cache = s.cache ∨ (∃ key, e = .evict key) ∨ ∃ request key, .put request key ∈ effects := by
  cases htaken with
  | store hstage => exact Or.inr (Or.inr ⟨_, _, List.mem_singleton.2 rfl⟩)
  | evict => exact Or.inr (Or.inl ⟨_, rfl⟩)
  | _ => exact Or.inl rfl

/-- An effect of a step is one of a step taken. -/
theorem taken_of_effect {effect : Effect}
    (hmem : effect ∈ (machine caseMap env).answerAfter (init τ) past e) :
    Taken caseMap env ((machine caseMap env).run (init τ) past) e
      ((machine caseMap env).answerAfter (init τ) past e)
      (step caseMap env ((machine caseMap env).run (init τ) past) e).2 := by
  rcases step_cases caseMap env ((machine caseMap env).run (init τ) past) e with hsame | htaken
  · rw [Machine.answerAfter, show (machine caseMap env).step _ e = step caseMap env _ e from rfl,
      hsame] at hmem
    cases hmem
  · exact htaken

end Effects

/-- **The edge cache leaks nothing.** After every schedule:

* a response that is marked as a hit, to a request with a cache key (an anonymous search), carries
  the body of an answer that the backend gave to its query, asked by an anonymous search of the
  same origin, with status 200 and a `Cache-Control` that lets it be shared, so not of a degraded
  search;
* a request without a key neither reads nor writes the cache, and a mark on its response is no hit
  of the cache: the backend's answer, or the asset, came with it;
* nothing else changes the cache, but evictions. -/
theorem hits_sound {τ : Type} [DecidableEq τ] (caseMap : CaseMap) (env : Env)
    (events : List (Event τ)) (e : Event τ) :
    (∀ request res key, .responded request res ∈
        (machine caseMap env).answerAfter (init τ) events e → res.isHit →
      cacheKey caseMap request = some key →
      ∃ past task reply later source sent, events = past ++ .backend task (some reply) :: later ∧
        ((machine caseMap env).run (init τ) past).stage task = .fetching source (some key) sent ∧
        SharedAnswer caseMap request source sent reply ∧ reply.body = res.body ∧
        ∀ authorization degraded, reply.headers.get? "cache-control" =
          some (searchCacheControl authorization degraded) →
            authorization = false ∧ degraded = false) ∧
    (∀ request, cacheKey caseMap request = none →
      (∀ key, .matched request key ∉ (machine caseMap env).answerAfter (init τ) events e ∧
        .put request key ∉ (machine caseMap env).answerAfter (init τ) events e) ∧
      ∀ res, .responded request res ∈ (machine caseMap env).answerAfter (init τ) events e →
        res.isHit → ∃ task reply, (e = .backend task (some reply) ∨ e = .asset task reply) ∧
          reply.isHit) ∧
    (((machine caseMap env).run (init τ) (events ++ [e])).cache =
        ((machine caseMap env).run (init τ) events).cache ∨
      (∃ key, e = .evict key) ∨
      ∃ request key, .put request key ∈ (machine caseMap env).answerAfter (init τ) events e) := by
  have hsound := @sound_run τ _ caseMap env events
  refine ⟨?_, ?_, ?_⟩
  · intro request res key hmem hhit hkey
    rcases (taken_of_effect hmem).hit_cases hsound hmem hhit with
      ⟨found, hit, hfound, hcached, hbody⟩ | ⟨hnone, -⟩
    · obtain rfl := Option.some.inj (hfound.symm.trans hkey)
      obtain ⟨past, task, reply, later, source, sent, hevents, hstage, hstatus, hshare, hreply⟩ :=
        hsound.cached _ hit hcached
      refine ⟨past, task, reply, later, source, sent, hevents, hstage, ?_, hreply.trans hbody,
        fun authorization degraded hcc => not_degraded_of_shareable hshare hcc⟩
      exact sharedAnswer_of_rightly ((@sound_run τ _ caseMap env past).rightly hstage) hkey hshare
    · cases hnone.symm.trans hkey
  · intro request hnone
    refine ⟨fun key => ⟨fun hmem => ?_, fun hmem => ?_⟩, fun res hmem hhit => ?_⟩
    · cases hnone.symm.trans ((taken_of_effect hmem).cacheKey_of_touch hsound (Or.inl hmem))
    · cases hnone.symm.trans ((taken_of_effect hmem).cacheKey_of_touch hsound (Or.inr hmem))
    · rcases (taken_of_effect hmem).hit_cases hsound hmem hhit with ⟨key, hit, hkey, -⟩ | ⟨-, hown⟩
      · cases hnone.symm.trans hkey
      · exact hown
  · rw [Machine.run_concat]
    rcases step_cases caseMap env ((machine caseMap env).run (init τ) events) e with
      hsame | htaken
    · exact Or.inl (congrArg (fun outcome => outcome.2.cache) hsame)
    · exact htaken.cache_eq

end DealFinder.Edge
