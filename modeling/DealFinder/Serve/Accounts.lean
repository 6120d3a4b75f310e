/-
# Accounts over HTTP

The routes that read or write a shopper's data: the token is verified with a cached signing key,
its claims name a user and a tenant, the app looks whether its database is there, and a
transaction runs. Searches remember what they showed in the catalog of the caller's tenant.

The server is the key cache, what is known of the database, and the pool. A request comes with
what its clock, the network and the database have in store for it, so a run is a list of requests
in the order in which they are handled.
-/

import DealFinder.Auth.Jwks
import DealFinder.Feeds.Json
import DealFinder.Serve.Ready
import DealFinder.Store.Isolation

namespace DealFinder.Serve

open DealFinder.Math DealFinder.Feeds DealFinder.Store

variable {Key : Type}

/-! ## What the app is given -/

/-- Why `jwt.decode` rejects a token. -/
inductive Rejected
  | expired
  | invalid
  deriving DecidableEq

/-- The token library. -/
structure Jwt (Key : Type) where
  /-- `jwt.get_unverified_header(token).get("kid")`, unless it raises. -/
  kid : String → Option (Option String)
  /-- `jwt.decode(token, key, ..., issuer=issuer)` at a time: the claims. -/
  decode : String → Key → String → ℚ → Except Rejected (List (String × Json))

/-- The environment of the process. -/
structure Env (Key : Type) where
  jwt : Jwt Key
  postgres : Postgres
  /-- `SUPABASE_URL`. -/
  supabaseUrl : Option String
  /-- `DATABASE_URL` is set. -/
  databaseUrl : Bool
  /-- `uuid.UUID(text)` raises no `ValueError`. -/
  readsUuid : String → Bool

/-- What a transaction is given: whether the pool reaches the database, a connection, its time,
and the id that Postgres generates. -/
structure Given where
  reached : Bool
  conn : ℕ
  time : ℚ
  generated : Uuid

/-- What a search shows: rows, their embeddings unless the model raises, and whether a store did
not answer. -/
structure Shown where
  rows : List Row
  embeddings : Option (Option (List (Option (List ℚ))))
  degraded : Bool

/-- The routes, with what the client sends. A search whose text or size is rejected shows
nothing. -/
inductive Endpoint
  | search (shown : Option Shown)
  | ranked (shown : Option Shown)
  | semantic (queryEmbedding : Option (List ℚ)) (k : ℤ)
  | watchlistAdd (offerId : String) (targetPrice : Option ℚ)
  | watchlistList
  | watchlistRemove (offerId : String)
  | savedSearchAdd (query : String) (maxPrice : Option ℚ)
  | savedSearchList
  | savedSearchRemove (searchId : String)

/-- A request: the route, the credentials of a bearer token, and what is in store for it. -/
structure HttpRequest (Key : Type) where
  endpoint : Endpoint
  /-- There is an `Authorization` header. -/
  authorization : Bool
  /-- What the bearer scheme reads off it. -/
  credentials : Option String
  /-- The clock and the network, for the signing key. -/
  call : Auth.Call Key
  decodedAt : ℚ
  look : Look
  given : Given
  /-- For the background task. -/
  remembering : Given

/-- What the client gets. -/
inductive Response
  | ok (status : ℕ) (answer : Answer)
  | removed (id : String)
  | rows (rows : List Row) (cacheControl : Option String)
  /-- The answer from the snapshot, when there is no database. -/
  | snapshot
  | detail (status : ℕ) (text : String)
  /-- The client sent something that does not validate. -/
  | unprocessable
  /-- An exception that nobody handles. -/
  | serverError
  deriving DecidableEq

/-- The state of the process. -/
structure Server (Key : Type) where
  jwks : Auth.Jwks Key
  ready : Ready
  pool : Pool

/-- A part of a handler. An exception carries the response it ends in. -/
abbrev Handler (Key : Type) := Effect (Server Key) Response

/-! ## Who is asking -/

/-- `_tenant_from_claims`. What is not an object has no `get`. -/
def tenantFromClaims (claims : Json) : Option Json := do
  let appMeta := (← claims.get "app_metadata").orElse (.obj [])
  let tenant ← claims.get "tenant"
  if tenant.truthy then return tenant
  let tenant ← appMeta.get "tenant"
  if tenant.truthy then return tenant
  let tenant ← appMeta.get "tenant_id"
  if tenant.truthy then return tenant
  claims.get "org_id"

/-- `_role_from_claims`. -/
def roleFromClaims (claims : Json) : Option Json := do
  let appMeta := (← claims.get "app_metadata").orElse (.obj [])
  let role ← claims.get "user_role"
  if role.truthy then return role
  let role ← appMeta.get "plan"
  if role.truthy then return role
  return (← appMeta.get "role").orElse (.str "free")

/-- `Principal`. -/
structure Principal where
  tenantId : Json
  userId : Json
  role : Json

/-- No token. -/
def anonymous : Principal := ⟨.str defaultTenant, .null, .str "anonymous"⟩

/-- The principal that claims name. -/
def principalOf (claims : Json) : Option Principal := do
  let tenant ← tenantFromClaims claims
  let user ← claims.get "sub"
  let role ← roleFromClaims claims
  return ⟨tenant.orElse (.str defaultTenant), user, role⟩

/-- A value that can be bound to a text parameter of a query. -/
def asParameter : Json → Option String
  | .str s => if '\x00' ∈ s.toList then none else some s
  | _ => none

section Handlers

variable (env : Env Key) (request : HttpRequest Key)

/-- `_unavailable`. -/
def authUnavailable : Response := .detail 503 "auth unavailable"

/-- The claims of a token, by the key that is found for it. -/
def decodeClaims (token : String) (key : Key) (issuer : String) : Handler Key Json :=
  match env.jwt.decode token key issuer request.decodedAt with
  | .ok claims => pure (.obj claims)
  | .error .expired => Effect.raise (.detail 401 "token expired")
  | .error .invalid => Effect.raise (.detail 401 "invalid token")

/-- `_Jwks.key_for`. -/
def keyFor (kid : Option String) : Handler Key (Auth.Answer Key) :=
  Effect.write fun s =>
    let (reply, jwks) := Auth.keyFor s.jwks { request.call with kid }
    (reply.answer, { s with jwks })

/-- The issuer of a project's tokens. -/
def issuerOf (url : String) : String :=
  String.ofList (url.toList.reverse.dropWhile (· = '/')).reverse ++ "/auth/v1"

/-- `verify_token`. -/
def verifyToken (token : String) : Handler Key Json :=
  match env.supabaseUrl.filter (· ≠ "") with
  | none => Effect.raise authUnavailable
  | some url =>
      match env.jwt.kid token with
      | none => Effect.raise (.detail 401 "invalid token")
      | some kid => do
          match ← keyFor request kid with
          | .unavailable _ => Effect.raise authUnavailable
          | .invalidKey _ => Effect.raise (.detail 401 "invalid token")
          | .key key => decodeClaims env request token key (issuerOf url)

/-- `current_principal`. -/
def currentPrincipal : Handler Key Principal :=
  match request.credentials with
  | none => pure anonymous
  | some token => do
      match principalOf (← verifyToken env request token) with
      | some who => pure who
      | none => Effect.raise .serverError

/-- `require_account`. -/
def requireAccount : Handler Key Principal := do
  let who ← currentPrincipal env request
  if who.userId.truthy then pure who
  else Effect.raise (.detail 401 "sign in to use account features")

/-- `_require_db`. -/
def requireDb : Handler Key Unit := do
  let db ← Effect.write fun s =>
    let ready := (s.ready.maybeRecheckDb env.databaseUrl request.look).2
    (ready.db, { s with ready })
  if db then pure ()
  else Effect.raise (.detail 503 "accounts need a database (set DATABASE_URL)")

/-- An operation of the store in a transaction, and what its exceptions become. -/
def transact (given : Given) (op : Op) (handle : Error → Response) : Handler Key Answer := fun s =>
  if given.reached then
    let (answer, pool) := s.pool.step env.postgres ⟨given.conn, given.time, given.generated, op⟩
    (answer.mapError handle, { s with pool })
  else (.error .serverError, s)

/-- The text of a parameter. -/
def parameter (v : Json) : Handler Key String :=
  match asParameter v with
  | some s => pure s
  | none => Effect.raise .serverError

/-- No exception is handled. -/
def unhandled (_ : Error) : Response := .serverError

/-! ## The catalog -/

/-- `_remember_offers`. -/
def rememberOffers (shown : Shown) (tenant : Json) : Handler Key Unit := fun s =>
  if !s.ready.db || shown.rows.isEmpty then (.ok (), s)
  else
    match shown.embeddings, asParameter tenant with
    | some embeddings, some tenant =>
        (.ok (), (transact env request.remembering (.upsert shown.rows embeddings tenant)
          unhandled s).2)
    | _, _ => (.ok (), s)

/-- `search`. -/
def search (shown : Option Shown) : Handler Key Response := do
  let who ← currentPrincipal env request
  match shown with
  | none => Effect.raise .unprocessable
  | some shown =>
      rememberOffers env request shown who.tenantId
      pure (.rows shown.rows (some
        (if request.authorization then "private, no-store"
        else if shown.degraded then "no-store" else "public, max-age=300")))

/-- `ranked`. -/
def ranked (shown : Option Shown) : Handler Key Response := do
  let who ← currentPrincipal env request
  match shown with
  | none => Effect.raise .unprocessable
  | some shown =>
      rememberOffers env request shown who.tenantId
      pure (.rows shown.rows none)

/-- `semantic`. -/
def semantic (queryEmbedding : Option (List ℚ)) (k : ℤ) : Handler Key Response := do
  let who ← currentPrincipal env request
  let db ← Effect.read fun s => s.ready.db
  if db then
    match queryEmbedding with
    | none => Effect.raise .serverError
    | some queryEmbedding =>
        let tenant ← parameter who.tenantId
        let answer ← transact env request.given (.semanticSearch queryEmbedding k tenant) unhandled
        pure (.ok 200 answer)
  else pure .snapshot

/-! ## The watchlist -/

/-- What a shopper may enter as a price: `Money`. -/
def IsMoney (price : ℚ) : Prop := 0 < price ∧ price < 1000000

instance (price : ℚ) : Decidable (IsMoney price) := inferInstanceAs (Decidable (_ ∧ _))

/-- 1 to 200 characters without a NUL: `OfferId`, and a `query` after trimming. -/
def IsShortText (s : String) : Prop :=
  1 ≤ s.toList.length ∧ s.toList.length ≤ 200 ∧ '\x00' ∉ s.toList

instance (s : String) : Decidable (IsShortText s) := inferInstanceAs (Decidable (_ ∧ _ ∧ _))

/-- A text and a price as `WatchIn` and `SavedSearchIn` let them pass. -/
structure Entered where
  text : String
  price : Option ℚ
  isShortText : IsShortText text
  isMoney : ∀ amount ∈ price, IsMoney amount

/-- The checks of both models. -/
def Entered.check (text : String) (price : Option ℚ) : Option Entered :=
  if h : IsShortText text ∧ ∀ amount ∈ price, IsMoney amount then some ⟨text, price, h.1, h.2⟩
  else none

/-- The body, or a 422. -/
def entered (text : String) (price : Option ℚ) : Handler Key Entered :=
  match Entered.check text price with
  | some item => pure item
  | none => Effect.raise .unprocessable

/-- What `watchlist_add` makes of an exception. -/
def watchFailed : Error → Response
  | .lookupError _ => .detail 404 "offer not found — search for it first"
  | .limitExceeded => .detail 409 ("watchlist limit reached (" ++ toString watchLimit ++ ")")
  | _ => .serverError

/-- `watchlist_add`. -/
def watchlistAdd (offerId : String) (targetPrice : Option ℚ) : Handler Key Response := do
  let who ← requireAccount env request
  let item ← entered offerId targetPrice
  requireDb env request
  let user ← parameter who.userId
  let tenant ← parameter who.tenantId
  let answer ← transact env request.given (.addWatch user tenant item.text item.price) watchFailed
  pure (.ok 201 answer)

/-- `watchlist_list`. -/
def watchlistList : Handler Key Response := do
  let who ← requireAccount env request
  requireDb env request
  let user ← parameter who.userId
  let answer ← transact env request.given (.listWatch user) unhandled
  pure (.ok 200 answer)

/-- A removal of no row is a 404. -/
def removedOr (id text : String) : Answer → Handler Key Response
  | .removed 0 => Effect.raise (.detail 404 text)
  | _ => pure (.removed id)

/-- `watchlist_remove`. -/
def watchlistRemove (offerId : String) : Handler Key Response := do
  let who ← requireAccount env request
  if '\x00' ∈ offerId.toList then Effect.raise (.detail 404 "not on your watchlist")
  else
    requireDb env request
    let user ← parameter who.userId
    let answer ← transact env request.given (.removeWatch user offerId) unhandled
    removedOr offerId "not on your watchlist" answer

/-! ## Saved searches -/

/-- What `saved_search_add` makes of an exception. -/
def searchFailed : Error → Response
  | .limitExceeded =>
      .detail 409 ("saved-search limit reached (" ++ toString savedSearchLimit ++ ")")
  | _ => .serverError

/-- `saved_search_add`. -/
def savedSearchAdd (query : String) (maxPrice : Option ℚ) : Handler Key Response := do
  let who ← requireAccount env request
  let body ← entered query maxPrice
  requireDb env request
  let user ← parameter who.userId
  let answer ← transact env request.given (.addSavedSearch user body.text body.price) searchFailed
  pure (.ok 201 answer)

/-- `saved_search_list`. -/
def savedSearchList : Handler Key Response := do
  let who ← requireAccount env request
  requireDb env request
  let user ← parameter who.userId
  let answer ← transact env request.given (.listSavedSearches user) unhandled
  pure (.ok 200 answer)

/-- `saved_search_remove`. -/
def savedSearchRemove (searchId : String) : Handler Key Response := do
  let who ← requireAccount env request
  if !env.readsUuid searchId then Effect.raise (.detail 404 "saved search not found")
  else
    requireDb env request
    let user ← parameter who.userId
    let answer ← transact env request.given (.removeSavedSearch user searchId) unhandled
    removedOr searchId "saved search not found" answer

/-- The route of a request. -/
def handler : Handler Key Response :=
  match request.endpoint with
  | .search shown => search env request shown
  | .ranked shown => ranked env request shown
  | .semantic queryEmbedding k => semantic env request queryEmbedding k
  | .watchlistAdd offerId targetPrice => watchlistAdd env request offerId targetPrice
  | .watchlistList => watchlistList env request
  | .watchlistRemove offerId => watchlistRemove env request offerId
  | .savedSearchAdd query maxPrice => savedSearchAdd env request query maxPrice
  | .savedSearchList => savedSearchList env request
  | .savedSearchRemove searchId => savedSearchRemove env request searchId

end Handlers

/-- What a handler ends in, exception or not. -/
def respond (result : Except Response Response) : Response :=
  match result with
  | .ok response | .error response => response

/-- What happens to the process and its database. -/
inductive Event (Key : Type)
  | http (request : HttpRequest Key)
  | readyz (look : Look)
  /-- The retention purge, a job of its own. -/
  | purge (conn : ℕ) (time : ℚ)

/-- The state after an event, and the response to a client. -/
def Server.step (env : Env Key) (s : Server Key) : Event Key → Option (Response ⊕ Health) × Server Key
  | .http request =>
      let (result, s) := handler env request s
      (some (.inl (respond result)), s)
  | .readyz look =>
      let (health, _, ready) := s.ready.readyz env.databaseUrl look
      (some (.inr health), { s with ready })
  | .purge conn time =>
      (none, { s with pool := (s.pool.step env.postgres ⟨conn, time, 0, .purgeExpired⟩).2 })

/-- The service. -/
def service (env : Env Key) : Machine (Server Key) (Event Key) (Option (Response ⊕ Health)) :=
  ⟨Server.step env⟩

/-- A token library that knows one token. -/
def oneToken (userId : String) : Jwt Unit where
  kid _ := some none
  decode token _ _ _ :=
    if token = "token" then .ok [("sub", .str userId)] else .error .invalid

/-- A process with a database, and a project. -/
def oneTokenEnv (userId : String) : Env Unit :=
  ⟨oneToken userId, plainPostgres, some "https://ref.supabase.co", true, fun _ => false⟩

/-- A look at a database that is there. -/
def presentLook : Look := ⟨0, 0, true, true, true⟩

/-- A request with the token. -/
def withToken (endpoint : Endpoint) : HttpRequest Unit where
  endpoint := endpoint
  authorization := true
  credentials := some "token"
  call := ⟨none, 0, 0, 0, 0, .ok fun _ => some ()⟩
  decodedAt := 0
  look := presentLook
  given := ⟨true, 0, 0, 0⟩
  remembering := ⟨true, 0, 0, 0⟩

end DealFinder.Serve
