/-
# Nobody else's data

A user's rows are out of reach without a token that names the user under a published key. In a
run without such a token two servers that differ in those rows only answer alike, and the rows
stay what they are, but for what the purge takes (`unaware`).

The operations of the store are known to respect what a user sees and to spare what others have.
This carries over to operations that respect everything but one user's rows, and from there along
the handlers: what they do depends on claims, and no claims name the user.
-/

import DealFinder.Serve.Accounts

namespace DealFinder.Serve

open DealFinder.Math DealFinder.Feeds DealFinder.Store

variable {Key : Type}

/-! ## Databases that differ in one user's rows -/

/-- The same for everyone but a user. -/
def SameBut (userId : String) (db db' : Database) : Prop :=
  ∀ other, other ≠ userId → SameForUser other db db'

/-- The rows of a user. -/
def rowsOf (userId : String) (db : Database) : Dict WatchKey Watch × List SavedSearch :=
  (db.watchlist.filter fun key _ => key.ownedBy userId,
    db.savedSearches.filter (SavedSearch.ownedBy userId))

section Bodies

variable {userId : String} {db db' : Database} {postgres : Postgres} {settings : Settings}

theorem sameForUser_refl (userId : String) (db : Database) : SameForUser userId db db :=
  ⟨rfl, rfl, rfl⟩

theorem sameForUser_trans {db'' : Database} (h : SameForUser userId db db')
    (h' : SameForUser userId db' db'') : SameForUser userId db db'' :=
  ⟨h.offers.trans h'.offers, h.watchlist.trans h'.watchlist,
    h.savedSearches.trans h'.savedSearches⟩

theorem sameForUser_symm (h : SameForUser userId db db') : SameForUser userId db' db :=
  ⟨h.offers.symm, h.watchlist.symm, h.savedSearches.symm⟩

theorem rowsOf_eq (h : SameForUser userId db db') : rowsOf userId db = rowsOf userId db' := by
  rw [rowsOf, rowsOf, h.watchlist, h.savedSearches]

/-- There is someone else. -/
theorem exists_other (userId : String) : ∃ other : String, other ≠ userId := by
  refine ⟨userId ++ "x", fun h => ?_⟩
  have hlength := congrArg String.length h
  rw [String.length_append] at hlength
  exact absurd hlength (Nat.succ_ne_self _)

/-- An operation that is not the user's respects everything but the user's rows. -/
theorem body_sameBut {op : Op} (hop : op.user? ≠ some userId) (hpurge : op ≠ .purgeExpired)
    (session : Settings) (now : ℚ) (generated : Uuid) :
    Effect.Respects (SameBut userId)
      (op.body postgres (op.settings session) now generated) := by
  intro db db' hsame
  cases huser : op.user? with
  | none =>
      have hrespects := fun other hother =>
        @respects_body postgres other op (.inl huser) hpurge session now generated db db'
          (hsame other hother)
      obtain ⟨other, hother⟩ := exists_other userId
      exact ⟨(hrespects other hother).1, fun third hthird => (hrespects third hthird).2⟩
  | some other =>
      have hother : other ≠ userId := fun heq => hop (huser.trans (congrArg some heq))
      have hrespects := @respects_body postgres other op (.inr huser) hpurge session now generated
        db db' (hsame other hother)
      refine ⟨hrespects.1, fun third hthird => ?_⟩
      by_cases heq : other = third
      · exact heq ▸ hrespects.2
      · -- A third user's rows are spared on both sides.
        have hspares := fun db => @spares_body postgres third op other huser heq session now
          generated db db (sameForUser_refl third db)
        exact sameForUser_trans (hspares db)
          (sameForUser_trans (hsame third hthird) (sameForUser_symm (hspares db')))

/-- An operation that is not the user's leaves the user's rows. -/
theorem body_rowsOf {op : Op} (hop : op.user? ≠ some userId) (hpurge : op ≠ .purgeExpired)
    (session : Settings) (now : ℚ) (generated : Uuid)
    (rows : Dict WatchKey Watch × List SavedSearch) :
    Effect.Maintains (fun db => rowsOf userId db = rows)
      (op.body postgres (op.settings session) now generated) := by
  cases huser : op.user? with
  | some other =>
      have hother : other ≠ userId := fun heq => hop (huser.trans (congrArg some heq))
      intro db hrows
      have hspares := @spares_body postgres userId op other huser hother session now generated
        db db (sameForUser_refl userId db)
      exact (rowsOf_eq hspares).trans hrows
  | none =>
      cases op with
      | upsert products embeddings tenant =>
          refine (maintains_upsert fun pair _ _ => Effect.maintains_attempt ?_).returning _
          intro db _ after hrows hrun
          obtain ⟨embedding, -, rfl⟩ := upsertOffer_ok postgres now
            (scopes_catalog tenant session) hrun
          exact hrows
      | semanticSearch queryEmbedding k tenant => exact (Effect.maintains_query _).returning _
      | count tenant => exact (Effect.maintains_read _).returning _
      | purgeExpired => exact absurd rfl hpurge
      | addWatch | listWatch | removeWatch | addSavedSearch | listSavedSearches
      | removeSavedSearch => cases huser

end Bodies

/-! ## Servers that differ in one user's rows -/

/-- Servers that differ in a user's rows only, and hold published keys. -/
structure Alike (published : Key → Prop) (userId : String)
    (rows rows' : Dict WatchKey Watch × List SavedSearch) (s s' : Server Key) : Prop where
  jwks : s.jwks = s'.jwks
  keys : ∀ kid key, s.jwks.lookup kid = some key → published key
  ready : s.ready = s'.ready
  session : s.pool.session = s'.pool.session
  db : SameBut userId s.pool.db s'.pool.db
  rows : rowsOf userId s.pool.db = rows
  rows' : rowsOf userId s'.pool.db = rows'

/-- The network answers a request with published keys. -/
def HttpRequest.Publishes (published : Key → Prop) (request : HttpRequest Key) : Prop :=
  ∀ keys, request.call.outcome = .ok keys → ∀ kid key, keys kid = some key → published key

/-- No published key makes the token of a request name the user. -/
def HttpRequest.NotFor (env : Env Key) (published : Key → Prop) (userId : String)
    (request : HttpRequest Key) : Prop :=
  ∀ token ∈ request.credentials, ∀ url ∈ env.supabaseUrl, ∀ key, published key → ∀ claims,
    env.jwt.decode token key (issuerOf url) request.decodedAt = .ok claims →
      (Json.obj claims).get "sub" ≠ some (.str userId)

section Keys

variable {published : Key → Prop} {cache : Auth.Jwks Key} {call : Auth.Call Key}

/-- A cache of published keys stays one, and gives such a key. -/
theorem keyFor_published (hcache : ∀ kid key, cache.lookup kid = some key → published key)
    (hcall : ∀ keys, call.outcome = .ok keys → ∀ kid key, keys kid = some key → published key) :
    (∀ kid key, (Auth.keyFor cache call).2.lookup kid = some key → published key) ∧
      ∀ key, (Auth.keyFor cache call).1.answer = .key key → published key := by
  simp only [Auth.keyFor]
  split_ifs
  · exact ⟨hcache, fun key hkey => hcache _ key (Auth.Answer.orInvalid_eq_key.1 hkey)⟩
  · exact ⟨hcache, fun key hkey => hcache _ key (Auth.Answer.orUnavailable_eq_key.1 hkey)⟩
  · cases houtcome : call.outcome with
    | error exc =>
        exact ⟨hcache, fun key hkey => hcache _ key (Auth.Answer.orUnavailable_eq_key.1 hkey)⟩
    | ok keys =>
        have hkeys := hcall keys houtcome
        exact ⟨hkeys, fun key hkey => hkeys _ key (Auth.Answer.orInvalid_eq_key.1 hkey)⟩
  · exact ⟨hcache, fun key hkey => hcache _ key (Auth.Answer.orInvalid_eq_key.1 hkey)⟩

end Keys

/-! ## What a handler may do -/

section Handlers

variable {env : Env Key} {published : Key → Prop} {userId : String}
  {rows rows' : Dict WatchKey Watch × List SavedSearch} {request : HttpRequest Key}

theorem yields_keyFor (hrequest : request.Publishes published) (kid : Option String) :
    Effect.Yields (Alike published userId rows rows')
      (fun answer => ∀ key, answer = .key key → published key) (keyFor request kid) := by
  intro s s' h
  obtain ⟨hkeys, hanswer⟩ :=
    @keyFor_published _ published s.jwks { request.call with kid } h.keys hrequest
  refine ⟨?_, ?_, ?_⟩
  · simp only [keyFor, Effect.write, h.jwks]
  · exact ⟨by simp only [keyFor, Effect.write, h.jwks], hkeys, h.ready, h.session, h.db, h.rows,
      h.rows'⟩
  · intro answer heq
    obtain rfl := Except.ok.inj heq
    exact hanswer

/-- Claims that a token yields do not name the user. -/
theorem yields_verifyToken (hrequest : request.Publishes published)
    (hnot : request.NotFor env published userId) {token : String}
    (htoken : request.credentials = some token) :
    Effect.Yields (Alike published userId rows rows')
      (fun claims => claims.get "sub" ≠ some (.str userId)) (verifyToken env request token) := by
  unfold verifyToken
  cases hurl : env.supabaseUrl.filter (· ≠ "") with
  | none => exact Effect.yields_raise _
  | some url =>
      cases hkid : env.jwt.kid token with
      | none => exact Effect.yields_raise _
      | some kid =>
          refine (yields_keyFor hrequest kid).bind fun answer hanswer => ?_
          cases answer with
          | unavailable reason => exact Effect.yields_raise _
          | invalidKey kid => exact Effect.yields_raise _
          | key key =>
              simp only [decodeClaims]
              cases hdecode : env.jwt.decode token key (issuerOf url) request.decodedAt with
              | error rejected => cases rejected <;> exact Effect.yields_raise _
              | ok claims =>
                  exact Effect.yields_pure (hnot token htoken url (Option.filter_eq_some_iff.1 hurl).1 key
                    (hanswer key rfl) claims hdecode)

theorem sub_of_principalOf {claims : Json} {who : Principal} (h : principalOf claims = some who) :
    claims.get "sub" = some who.userId := by
  simp only [principalOf, Option.bind_eq_bind, Option.pure_def, Option.bind_eq_some_iff] at h
  obtain ⟨tenant, -, user, huser, role, -, hwho⟩ := h
  rw [huser, ← Option.some.inj hwho]

theorem yields_currentPrincipal (rows rows' : Dict WatchKey Watch × List SavedSearch)
    (hrequest : request.Publishes published)
    (hnot : request.NotFor env published userId) :
    Effect.Yields (Alike published userId rows rows') (fun who => who.userId ≠ .str userId)
      (currentPrincipal env request) := by
  unfold currentPrincipal
  cases htoken : request.credentials with
  | none => exact Effect.yields_pure fun h => by cases h
  | some token =>
      refine (yields_verifyToken hrequest hnot htoken).bind fun claims hclaims => ?_
      cases hwho : principalOf claims with
      | none => exact Effect.yields_raise _
      | some who =>
          refine Effect.yields_pure fun heq => hclaims ?_
          rw [sub_of_principalOf hwho, heq]

theorem yields_requireAccount (rows rows' : Dict WatchKey Watch × List SavedSearch)
    (hrequest : request.Publishes published)
    (hnot : request.NotFor env published userId) :
    Effect.Yields (Alike published userId rows rows') (fun who => who.userId ≠ .str userId)
      (requireAccount env request) := by
  refine (yields_currentPrincipal rows rows' hrequest hnot).bind fun who hwho => ?_
  split
  · exact Effect.yields_pure hwho
  · exact Effect.yields_raise _

theorem respects_requireDb :
    Effect.Respects (Alike published userId rows rows') (requireDb env request) := by
  refine Effect.Respects.bind (Effect.respects_write fun s s' h => ⟨?_, ?_⟩) fun db => ?_
  · rw [h.ready]
  · exact ⟨h.jwks, h.keys, by rw [h.ready], h.session, h.db, h.rows, h.rows'⟩
  · split
    · exact Effect.respects_pure _
    · exact Effect.respects_raise _

theorem yields_parameter {v : Json} (hv : v ≠ .str userId) :
    Effect.Yields (Alike published userId rows rows') (fun s => s ≠ userId)
      (parameter v : Handler Key String) := by
  unfold parameter
  cases hs : asParameter v with
  | none => exact Effect.yields_raise _
  | some s =>
      refine Effect.yields_pure fun heq => hv ?_
      cases v with
      | str text =>
          simp only [asParameter] at hs
          split at hs
          · cases hs
          · rw [← heq, Option.some.inj hs]
      | _ => cases hs

/-- An operation that is not the user's, in a transaction. -/
theorem respects_transact {op : Op} (hop : op.user? ≠ some userId) (hpurge : op ≠ .purgeExpired)
    (given : Given) (handle : Error → Response) :
    Effect.Respects (Alike published userId rows rows') (transact env given op handle) := by
  intro s s' h
  simp only [transact]
  split
  · have hstep := @step_of_respects env.postgres s.pool s'.pool
      ⟨given.conn, given.time, given.generated, op⟩ (SameBut userId) h.session
      (body_sameBut hop hpurge _ _ _) h.db
    refine ⟨by rw [hstep.1], h.jwks, h.keys, h.ready, ?_, hstep.2, ?_, ?_⟩
    · exact session_step.trans (h.session.trans session_step.symm)
    · exact step_of_maintains (P := fun db => rowsOf userId db = rows)
        (body_rowsOf hop hpurge _ _ _ rows) h.rows
    · exact step_of_maintains (P := fun db => rowsOf userId db = rows')
        (body_rowsOf hop hpurge _ _ _ rows') h.rows'
  · exact ⟨rfl, h⟩

theorem respects_rememberOffers (shown : Shown) (tenant : Json) :
    Effect.Respects (Alike published userId rows rows')
      (rememberOffers env request shown tenant) := by
  intro s s' h
  simp only [rememberOffers, h.ready]
  split
  · exact ⟨rfl, h⟩
  split
  · next embeddings tenant _ _ =>
      have hop : (Op.upsert shown.rows embeddings tenant).user? ≠ some userId := by
        intro heq
        cases heq
      exact ⟨rfl, (respects_transact hop (by simp) request.remembering unhandled s s' h).2⟩
  · exact ⟨rfl, h⟩

/-- A handler of a caller who is someone else. -/
theorem respects_ofCaller {α : Type} {next : Principal → Handler Key α}
    {caller : Handler Key Principal}
    (hcaller : Effect.Yields (Alike published userId rows rows')
      (fun who => who.userId ≠ .str userId) caller)
    (hnext : ∀ who, who.userId ≠ .str userId →
      Effect.Respects (Alike published userId rows rows') (next who)) :
    Effect.Respects (Alike published userId rows rows') (caller >>= next) :=
  (hcaller.bind fun who hwho => (hnext who hwho).yields).respects

/-- A transaction for a caller who is someone else. -/
theorem respects_ofUser {α : Type} {v : Json} (hv : v ≠ .str userId) {op : String → Op}
    {handle : Error → Response} {next : Answer → Handler Key α}
    (hop : ∀ user, user ≠ userId → (op user).user? ≠ some userId ∧ op user ≠ .purgeExpired)
    (hnext : ∀ answer, Effect.Respects (Alike published userId rows rows') (next answer)) :
    Effect.Respects (Alike published userId rows rows') (do
      let user ← parameter v
      let answer ← transact env request.given (op user) handle
      next answer) :=
  ((yields_parameter hv).bind fun user huser =>
    ((respects_transact (hop user huser).1 (hop user huser).2 request.given handle).bind
      hnext).yields).respects

theorem respects_parameter (v : Json) :
    Effect.Respects (Alike published userId rows rows') (parameter v : Handler Key String) := by
  unfold parameter
  cases asParameter v with
  | none => exact Effect.respects_raise _
  | some s => exact Effect.respects_pure _

theorem respects_entered (text : String) (price : Option ℚ) :
    Effect.Respects (Alike published userId rows rows') (entered text price : Handler Key Entered) := by
  unfold entered
  cases Entered.check text price with
  | none => exact Effect.respects_raise _
  | some item => exact Effect.respects_pure _

theorem respects_removedOr (id text : String) (answer : Answer) :
    Effect.Respects (Alike published userId rows rows')
      (removedOr id text answer : Handler Key Response) := by
  unfold removedOr
  split
  · exact Effect.respects_raise _
  · exact Effect.respects_pure _

/-- **One request.** A request with no token for the user does and answers the same whatever the
user's rows, and leaves them. -/
theorem respects_handler (hrequest : request.Publishes published)
    (hnot : request.NotFor env published userId) :
    Effect.Respects (Alike published userId rows rows') (handler env request) := by
  have hcaller := yields_currentPrincipal rows rows' hrequest hnot
  have haccount := yields_requireAccount rows rows' hrequest hnot
  unfold handler
  cases request.endpoint with
  | search shown =>
      refine respects_ofCaller hcaller fun who _ => ?_
      cases shown with
      | none => exact Effect.respects_raise _
      | some shown =>
          exact (respects_rememberOffers shown who.tenantId).bind fun _ => Effect.respects_pure _
  | ranked shown =>
      refine respects_ofCaller hcaller fun who _ => ?_
      cases shown with
      | none => exact Effect.respects_raise _
      | some shown =>
          exact (respects_rememberOffers shown who.tenantId).bind fun _ => Effect.respects_pure _
  | semantic queryEmbedding k =>
      refine respects_ofCaller hcaller fun who _ => ?_
      refine (Effect.respects_read fun s s' h => by rw [h.ready]).bind fun db => ?_
      split
      · cases queryEmbedding with
        | none => exact Effect.respects_raise _
        | some queryEmbedding =>
            refine (respects_parameter who.tenantId).bind fun tenant => ?_
            exact (respects_transact (by simp [Op.user?]) (by simp) request.given
              unhandled).returning _
      · exact Effect.respects_pure _
  | watchlistAdd offerId targetPrice =>
      refine respects_ofCaller haccount fun who hwho => ?_
      refine (respects_entered offerId targetPrice).bind fun item =>
        respects_requireDb.bind fun _ => ?_
      refine ((yields_parameter hwho).bind fun user huser => Effect.Respects.yields ?_).respects
      refine (respects_parameter who.tenantId).bind fun tenant => ?_
      exact (respects_transact (by simpa [Op.user?] using huser) (by simp) request.given
        watchFailed).returning _
  | watchlistList =>
      refine respects_ofCaller haccount fun who hwho => respects_requireDb.bind fun _ => ?_
      exact respects_ofUser hwho (fun user huser => ⟨by simpa [Op.user?] using huser, by simp⟩)
        fun _ => Effect.respects_pure _
  | watchlistRemove offerId =>
      refine respects_ofCaller haccount fun who hwho => ?_
      split
      · exact Effect.respects_raise _
      · refine respects_requireDb.bind fun _ => ?_
        exact respects_ofUser hwho (fun user huser => ⟨by simpa [Op.user?] using huser, by simp⟩)
          fun answer => respects_removedOr _ _ answer
  | savedSearchAdd query maxPrice =>
      refine respects_ofCaller haccount fun who hwho => ?_
      refine (respects_entered query maxPrice).bind fun body =>
        respects_requireDb.bind fun _ => ?_
      exact respects_ofUser hwho (fun user huser => ⟨by simpa [Op.user?] using huser, by simp⟩)
        fun _ => Effect.respects_pure _
  | savedSearchList =>
      refine respects_ofCaller haccount fun who hwho => respects_requireDb.bind fun _ => ?_
      exact respects_ofUser hwho (fun user huser => ⟨by simpa [Op.user?] using huser, by simp⟩)
        fun _ => Effect.respects_pure _
  | savedSearchRemove searchId =>
      refine respects_ofCaller haccount fun who hwho => ?_
      split
      · exact Effect.respects_raise _
      · refine respects_requireDb.bind fun _ => ?_
        exact respects_ofUser hwho (fun user huser => ⟨by simpa [Op.user?] using huser, by simp⟩)
          fun answer => respects_removedOr _ _ answer

end Handlers

/-! ## Runs -/

/-- What an event leaves of a user's rows: a purge takes the expired watches. -/
def Event.leaves (rows : Dict WatchKey Watch × List SavedSearch) :
    Event Key → Dict WatchKey Watch × List SavedSearch
  | .purge _ time =>
      (rows.1.filter fun _ watch =>
        !expired time retentionMarginS watch.source watch.lastCheckedAt, rows.2)
  | _ => rows

theorem rowsOf_purge {settings : Settings} (hjob : settings.role = .job) (userId : String)
    (now : ℚ) (db : Database) :
    rowsOf userId (purgeExpired now retentionMarginS settings db).2 =
      ((rowsOf userId db).1.filter fun _ watch =>
        !expired now retentionMarginS watch.source watch.lastCheckedAt, (rowsOf userId db).2) := by
  rw [purgeExpired_eq now retentionMarginS hjob, rowsOf, rowsOf, Dict.filter_comm]

/-- **One event.** -/
theorem step_alike {env : Env Key} {published : Key → Prop} {userId : String}
    {rows rows' : Dict WatchKey Watch × List SavedSearch} {s s' : Server Key} {event : Event Key}
    (h : Alike published userId rows rows' s s')
    (hevent : ∀ request, event = .http request →
      request.Publishes published ∧ request.NotFor env published userId) :
    ((service env).step s event).1 = ((service env).step s' event).1 ∧
      Alike published userId (event.leaves rows) (event.leaves rows')
        ((service env).step s event).2 ((service env).step s' event).2 := by
  cases event with
  | http request =>
      obtain ⟨hrequest, hnot⟩ := hevent request rfl
      obtain ⟨hanswer, hafter⟩ := respects_handler hrequest hnot s s' h
      exact ⟨by simp only [service, Server.step, hanswer], hafter⟩
  | readyz look =>
      refine ⟨by simp only [service, Server.step, h.ready], h.jwks, h.keys, ?_, h.session, h.db,
        h.rows, h.rows'⟩
      simp only [service, Server.step, h.ready]
  | purge conn time =>
      refine ⟨rfl, h.jwks, h.keys, h.ready, ?_, fun other hother => ?_, ?_, ?_⟩
      · exact session_step.trans (h.session.trans session_step.symm)
      · simp only [service, Server.step, step_purge]
        exact sameForUser_purge rfl rfl (h.db other hother)
      · refine (congrArg (rowsOf userId) (step_purge rfl)).trans ?_
        rw [rowsOf_purge rfl, h.rows]
        rfl
      · refine (congrArg (rowsOf userId) (step_purge rfl)).trans ?_
        rw [rowsOf_purge rfl, h.rows']
        rfl

/-- **Nobody else's data.** Take two servers that differ in a user's rows only, and any run of
requests, readiness checks and purges in which no token names the user under a published key, nor
does the network answer with other keys. Every response is the same, whatever the user's rows;
and these rows stay, but for what the purges take. -/
theorem unaware (env : Env Key) (published : Key → Prop) (userId : String)
    (rows rows' : Dict WatchKey Watch × List SavedSearch) (s s' : Server Key)
    (events : List (Event Key)) (h : Alike published userId rows rows' s s')
    (hevents : ∀ request, .http request ∈ events →
      request.Publishes published ∧ request.NotFor env published userId) :
    (service env).observe (fun _ answer => answer) s events =
        (service env).observe (fun _ answer => answer) s' events ∧
      rowsOf userId ((service env).run s events).pool.db = events.foldl Event.leaves rows := by
  induction events generalizing s s' rows rows' with
  | nil => exact ⟨rfl, h.rows⟩
  | cons event rest ih =>
      obtain ⟨hanswer, hafter⟩ := step_alike h fun request heq =>
        hevents request (List.mem_cons.2 (.inl heq.symm))
      obtain ⟨hrest, hrows⟩ := ih _ _ _ _ hafter fun request hmem =>
        hevents request (List.mem_cons_of_mem _ hmem)
      exact ⟨by rw [Machine.observe, Machine.observe, hanswer, hrest], hrows⟩

/-- A server whose users have these saved searches. -/
def serverWith (searches : List SavedSearch) : Server Unit :=
  ⟨.init, .boot true 0 true, { emptyPool with db := { Database.empty with savedSearches := searches } }⟩

/-- A search that ada saved. -/
def adasSearch : SavedSearch := ⟨7, "ada", "lamp", some 20, 0⟩

theorem unaware_oneToken :
    (service (oneTokenEnv "bob")).observe (fun _ answer => answer) (serverWith [adasSearch])
        [.http (withToken .savedSearchList), .purge 0 5] =
      (service (oneTokenEnv "bob")).observe (fun _ answer => answer) (serverWith [])
        [.http (withToken .savedSearchList), .purge 0 5] ∧
    rowsOf "ada" ((service (oneTokenEnv "bob")).run (serverWith [adasSearch])
        [.http (withToken .savedSearchList), .purge 0 5]).pool.db =
      [Event.http (withToken .savedSearchList), .purge 0 5].foldl Event.leaves
        (.empty, [adasSearch]) := by
  refine unaware (oneTokenEnv "bob") (fun _ => True) "ada" (.empty, [adasSearch]) (.empty, [])
    (serverWith [adasSearch]) (serverWith [])
    [.http (withToken .savedSearchList), .purge 0 5] ?_ ?_
  · refine ⟨rfl, fun _ _ _ => trivial, rfl, rfl, fun other hother => ⟨rfl, rfl, ?_⟩, rfl, rfl⟩
    exact List.filter_cons_of_neg fun howned => hother (of_decide_eq_true howned).symm
  · intro request hmem
    refine ⟨fun _ _ _ _ _ => trivial, fun token _ url _ key _ claims hdecode => ?_⟩
    rcases List.mem_cons.1 hmem with heq | hpurge
    · obtain rfl := Event.http.inj heq
      simp only [oneTokenEnv, oneToken] at hdecode
      split at hdecode
      · rw [← Except.ok.inj hdecode]
        intro hsub
        have hbob : "bob" = "ada" := Json.str.inj (Option.some.inj hsub)
        exact absurd hbob (by decide)
      · cases hdecode
    · simp at hpurge

end DealFinder.Serve
