/-
# What the API lets pass, the tables take

The checks of the request models and the `CHECK`s of the tables were written apart. They agree:
no account request that reaches the database ends in an unhandled exception, but for a saved
search whose id Python reads as a uuid and Postgres does not (`account_handled`).
-/

import DealFinder.Serve.Accounts

namespace DealFinder.Serve

open DealFinder.Math DealFinder.Feeds DealFinder.Store

variable {Key : Type}

/-! ## The operations of the store -/

section Bodies

variable {settings : Settings} {tenantId userId : String}

/-- A positive price passes its `CHECK`. -/
theorem positive_of_isMoney (constraint : String) {price : Option ℚ}
    (h : ∀ amount ∈ price, IsMoney amount) : positive constraint price = .ok () := by
  cases price with
  | none => rfl
  | some amount => exact if_pos (h amount rfl).1

theorem ends_watchRoom (offerId : String) :
    Effect.Ends (fun _ => True) (· = Error.limitExceeded) (watchRoom settings offerId) := by
  refine (Effect.ends_read _).bind fun watched _ => ?_
  split
  · exact Effect.ends_pure trivial
  refine (Effect.ends_read _).bind fun n _ => ?_
  split
  · exact Effect.ends_raise rfl
  · exact Effect.ends_pure trivial

/-- What `add_watch` may raise, of a price that passes. -/
theorem ends_addWatch (h : settings.Scopes tenantId userId) (now : ℚ) (offerId : String)
    {price : Option ℚ} (hprice : ∀ amount ∈ price, IsMoney amount) :
    Effect.Ends (fun _ => True) (fun e => (∃ id, e = .lookupError id) ∨ e = .limitExceeded)
      (addWatch settings now userId tenantId offerId price) := by
  refine (Effect.ends_read _).bind fun offer _ => ?_
  cases offer with
  | none => exact Effect.ends_raise (.inl ⟨_, rfl⟩)
  | some offer =>
      simp only
      split
      · exact Effect.ends_raise (.inl ⟨_, rfl⟩)
      · refine ((ends_watchRoom offerId).mono (fun _ h => h) fun e h => .inr h).bind fun _ _ => ?_
        refine Effect.Ends.bind (P := fun _ => True) (fun db => ?_) fun _ _ =>
          Effect.ends_pure trivial
        rw [Effect.attempt_of_ok ((h.upsertWatch_eq offerId _ db).trans
          (congrArg (Except.map _) (positive_of_isMoney _ hprice)))]
        exact trivial

/-- What `add_saved_search` may raise, of a text and a price that pass. -/
theorem ends_addSavedSearch (h : settings.Scopes tenantId userId) (now : ℚ) (body : Entered)
    (id : Uuid) :
    Effect.Ends (fun _ => True) (· = Error.limitExceeded)
      (addSavedSearch settings now userId body.text body.price id) := by
  refine (Effect.ends_read _).bind fun n _ => ?_
  split
  · exact Effect.ends_raise rfl
  refine Effect.Ends.bind (P := fun _ => True) (fun db => ?_) fun _ _ => Effect.ends_pure trivial
  have hcheck : checkSearch ⟨id, userId, body.text, body.price, now⟩ = .ok () := by
    obtain ⟨hmin, hmax, -⟩ := body.isShortText
    rw [String.length_toList] at hmin hmax
    rw [checkSearch, if_neg (by simp only; omega)]
    exact positive_of_isMoney _ body.isMoney
  rw [Effect.attempt_of_ok ((h.insertSearch_eq rfl db).trans (congrArg (Except.map _) hcheck))]
  exact trivial

end Bodies

/-! ## The handlers -/

/-- The routes of an account. -/
def Endpoint.isAccount : Endpoint → Bool
  | .search _ | .ranked _ | .semantic .. => false
  | .watchlistAdd .. | .watchlistList | .watchlistRemove _ | .savedSearchAdd .. | .savedSearchList
  | .savedSearchRemove _ => true

/-- A principal whose names can be bound to the parameters of a query. -/
structure Principal.Binds (who : Principal) : Prop where
  user : who.userId.truthy = true → (asParameter who.userId).isSome = true
  tenant : (asParameter who.tenantId).isSome = true

/-- The claims of a request's token name such a principal. -/
def HttpRequest.Binds (env : Env Key) (request : HttpRequest Key) : Prop :=
  ∀ token ∈ request.credentials, ∀ key url claims,
    env.jwt.decode token key url request.decodedAt = .ok claims →
      ∃ who, principalOf (.obj claims) = some who ∧ who.Binds

section Handlers

variable {env : Env Key} {request : HttpRequest Key}

/-- A response that is not the one to an exception nobody handles. -/
def Handled (response : Response) : Prop := response ≠ .serverError

theorem handled_detail (status : ℕ) (text : String) : Handled (.detail status text) :=
  fun h => by cases h

theorem ends_decodeClaims (token : String) (key : Key) (issuer : String)
    (hbinds : ∀ claims, env.jwt.decode token key issuer request.decodedAt = .ok claims →
      ∃ who, principalOf (.obj claims) = some who ∧ who.Binds) :
    Effect.Ends (fun claims => ∃ who, principalOf claims = some who ∧ who.Binds) Handled
      (decodeClaims env request token key issuer) := by
  unfold decodeClaims
  split
  · next claims hclaims => exact Effect.ends_pure (hbinds claims hclaims)
  · exact Effect.ends_raise (handled_detail _ _)
  · exact Effect.ends_raise (handled_detail _ _)

theorem ends_currentPrincipal (hbinds : request.Binds env) :
    Effect.Ends Principal.Binds Handled (currentPrincipal env request) := by
  unfold currentPrincipal
  cases htoken : request.credentials with
  | none => exact Effect.ends_pure ⟨fun h => absurd h Bool.false_ne_true, by decide⟩
  | some token =>
      refine Effect.Ends.bind (P := fun claims => ∃ who, principalOf claims = some who ∧ who.Binds)
        ?_ fun claims hclaims => ?_
      · unfold verifyToken
        split
        · exact Effect.ends_raise (handled_detail _ _)
        split
        · exact Effect.ends_raise (handled_detail _ _)
        refine (Effect.ends_write _).bind fun answer _ => ?_
        cases answer with
        | unavailable reason => exact Effect.ends_raise (handled_detail _ _)
        | invalidKey kid => exact Effect.ends_raise (handled_detail _ _)
        | key key => exact ends_decodeClaims token key _ (hbinds token htoken key _)
      · obtain ⟨who, hwho, hbound⟩ := hclaims
        simp only [hwho]
        exact Effect.ends_pure hbound

theorem ends_requireAccount (hbinds : request.Binds env) :
    Effect.Ends (fun who => (asParameter who.userId).isSome = true ∧
      (asParameter who.tenantId).isSome = true) Handled (requireAccount env request) := by
  refine (ends_currentPrincipal hbinds).bind fun who hwho => ?_
  split
  · next huser => exact Effect.ends_pure ⟨hwho.user huser, hwho.tenant⟩
  · exact Effect.ends_raise (handled_detail _ _)

theorem ends_requireDb : Effect.Ends (fun _ => True) Handled (requireDb env request) := by
  refine (Effect.ends_write _).bind fun db _ => ?_
  split
  · exact Effect.ends_pure trivial
  · exact Effect.ends_raise (handled_detail _ _)

theorem ends_parameter {v : Json} (hv : (asParameter v).isSome = true) :
    Effect.Ends (fun _ => True) Handled (parameter v : Handler Key String) := by
  unfold parameter
  obtain ⟨s, hs⟩ := Option.isSome_iff_exists.1 hv
  rw [hs]
  exact Effect.ends_pure trivial

theorem ends_entered (text : String) (price : Option ℚ) :
    Effect.Ends (fun _ => True) Handled (entered text price : Handler Key Entered) := by
  unfold entered
  cases Entered.check text price with
  | none => exact Effect.ends_raise fun h => by cases h
  | some item => exact Effect.ends_pure trivial

theorem ends_removedOr (id text : String) (answer : Answer) :
    Effect.Ends Handled Handled (removedOr id text answer : Handler Key Response) := by
  unfold removedOr
  split
  · exact Effect.ends_raise (handled_detail _ _)
  · exact Effect.ends_pure fun h => by cases h

/-- A transaction ends as its body does. -/
theorem ends_transact (hreached : request.given.reached = true) {op : Op}
    {handle : Error → Response}
    (hbody : ∀ session now generated, Effect.Ends (fun _ => True) (fun e => Handled (handle e))
      (op.body env.postgres (op.settings session) now generated)) :
    Effect.Ends (fun _ => True) Handled (transact env request.given op handle) := by
  intro s
  have hend := hbody (s.pool.session request.given.conn) request.given.time
    request.given.generated s.pool.db
  simp only [transact, if_pos hreached, Pool.step, Pool.transaction]
  cases hrun : op.body env.postgres (op.settings (s.pool.session request.given.conn))
      request.given.time request.given.generated s.pool.db with
  | mk result db =>
      rw [hrun] at hend
      cases result with
      | ok answer => exact trivial
      | error e => exact hend

theorem ends_answer (status : ℕ) (answer : Answer) :
    Effect.Ends Handled Handled (pure (.ok status answer) : Handler Key Response) :=
  Effect.ends_pure fun h => by cases h

/-- **What passes is taken.** An account request that reaches the database, whose claims name a
user and a tenant that can be bound, does not end in an unhandled exception, whatever the state;
unless it removes a saved search whose id Python reads as a uuid and Postgres does not. -/
theorem account_handled (env : Env Key) (request : HttpRequest Key) (s : Server Key)
    (haccount : request.endpoint.isAccount = true) (hreached : request.given.reached = true)
    (hbinds : request.Binds env)
    (huuid : ∀ id, request.endpoint = .savedSearchRemove id → env.readsUuid id = true →
      (env.postgres.uuid id).isSome = true) :
    Handled (respond (handler env request s).1) := by
  have hends : Effect.Ends Handled Handled (handler env request) := by
    unfold handler
    cases hendpoint : request.endpoint with
    | search | ranked | semantic => rw [hendpoint] at haccount; cases haccount
    | watchlistAdd offerId targetPrice =>
        refine (ends_requireAccount hbinds).bind fun who hwho => ?_
        refine (ends_entered offerId targetPrice).bind fun item _ =>
          ends_requireDb.bind fun _ _ => (ends_parameter hwho.1).bind fun user _ =>
            (ends_parameter hwho.2).bind fun tenant _ => ?_
        refine (ends_transact hreached fun session now generated => ?_).bind fun answer _ =>
          ends_answer 201 answer
        refine Effect.Ends.bind ((ends_addWatch (scopes_user user tenant session) now item.text
          item.isMoney).mono (fun _ h => h) fun e he => ?_) fun row _ => Effect.ends_pure trivial
        rcases he with ⟨id, rfl⟩ | rfl
        · exact handled_detail _ _
        · exact handled_detail _ _
    | watchlistList =>
        refine (ends_requireAccount hbinds).bind fun who hwho => ends_requireDb.bind fun _ _ =>
          (ends_parameter hwho.1).bind fun user _ => ?_
        refine (ends_transact hreached fun session now generated => ?_).bind fun answer _ =>
          ends_answer 200 answer
        exact (Effect.ends_read _).bind fun _ _ => Effect.ends_pure trivial
    | watchlistRemove offerId =>
        refine (ends_requireAccount hbinds).bind fun who hwho => ?_
        split
        · exact Effect.ends_raise (handled_detail _ _)
        refine ends_requireDb.bind fun _ _ => (ends_parameter hwho.1).bind fun user _ => ?_
        refine (ends_transact hreached fun session now generated => ?_).bind fun answer _ =>
          ends_removedOr _ _ answer
        exact (Effect.ends_write _).bind fun _ _ => Effect.ends_pure trivial
    | savedSearchAdd query maxPrice =>
        refine (ends_requireAccount hbinds).bind fun who hwho => ?_
        refine (ends_entered query maxPrice).bind fun body _ =>
          ends_requireDb.bind fun _ _ => (ends_parameter hwho.1).bind fun user _ => ?_
        refine (ends_transact hreached fun session now generated => ?_).bind fun answer _ =>
          ends_answer 201 answer
        refine Effect.Ends.bind ((ends_addSavedSearch (scopes_user user defaultTenant session) now
          body generated).mono (fun _ h => h) fun e he => ?_) fun row _ => Effect.ends_pure trivial
        rw [he]
        exact handled_detail _ _
    | savedSearchList =>
        refine (ends_requireAccount hbinds).bind fun who hwho => ends_requireDb.bind fun _ _ =>
          (ends_parameter hwho.1).bind fun user _ => ?_
        refine (ends_transact hreached fun session now generated => ?_).bind fun answer _ =>
          ends_answer 200 answer
        exact (Effect.ends_read _).bind fun _ _ => Effect.ends_pure trivial
    | savedSearchRemove searchId =>
        refine (ends_requireAccount hbinds).bind fun who hwho => ?_
        split
        · exact Effect.ends_raise (handled_detail _ _)
        next hreads =>
        refine ends_requireDb.bind fun _ _ => (ends_parameter hwho.1).bind fun user _ => ?_
        refine (ends_transact hreached fun session now generated => ?_).bind fun answer _ =>
          ends_removedOr _ _ answer
        obtain ⟨id, hid⟩ := Option.isSome_iff_exists.1
          (huuid searchId hendpoint (by simpa using hreads))
        refine Effect.Ends.bind (P := fun _ => True) ?_ fun _ _ => Effect.ends_pure trivial
        simp only [removeSavedSearch, hid]
        exact Effect.ends_write _
  have hend := hends s
  cases hrun : (handler env request s).1 with
  | ok response => rw [hrun] at hend; exact hend
  | error response => rw [hrun] at hend; exact hend

end Handlers

theorem account_handled_watch :
    Handled (respond (handler (oneTokenEnv "bob") (withToken (.watchlistAdd "lamp" (some 5)))
      ⟨.init, .boot true 0 true, emptyPool⟩).1) := by
  refine account_handled (oneTokenEnv "bob") (withToken (.watchlistAdd "lamp" (some 5)))
    ⟨.init, .boot true 0 true, emptyPool⟩ rfl rfl ?_ (fun id h => by cases h)
  intro token _ key url claims hdecode
  simp only [oneTokenEnv, oneToken] at hdecode
  split at hdecode
  · rw [← Except.ok.inj hdecode]
    exact ⟨⟨.str "public", .str "bob", .str "free"⟩, rfl, fun _ => by decide, by decide⟩
  · cases hdecode

end DealFinder.Serve
