/-
# Checkout and webhook

`create_checkout_session` tells the payment service who buys which plan, and `handle_webhook` reads
it back off the completed session. The service's client creates the session and checks the
signature of an event; what it hands over is a JSON value. A completed checkout is granted exactly
if the parts of the metadata that are read can be read (`grants_iff`).
-/

import DealFinder.Feeds.Json
import Mathlib.Data.List.Infix

namespace DealFinder.Billing

open DealFinder.Math DealFinder.Feeds

/-- The exceptions that end a call. -/
inductive BillingError
  | signatureVerification
  | keyError (key : String)
  | typeError
  | valueError (message : String)
  deriving DecidableEq

/-! ## Plans -/

/-- `Plan`. -/
structure Plan where
  key : String
  name : String
  monthlySearches : ℤ
  priceEnv : String

/-- `PLANS`, the free plan first. -/
def free : Plan := ⟨"free", "Free", 25, ""⟩

def pro : Plan := ⟨"pro", "Pro", 1000, "STRIPE_PRICE_PRO"⟩

/-- `plan_for`. -/
def planFor (key : String) : Plan := if key = "pro" then pro else free

/-! ## Checkout -/

/-- The authenticated user. -/
structure User where
  id : String
  email : Option String

section Checkout

variable (getenv : String → Option String) (create : Json → Except BillingError Json)

/-- `obj[key]`. -/
def index (obj : Json) (key : String) : Except BillingError Json :=
  match obj with
  | .obj entries =>
      match Json.value? entries key with
      | some v => .ok v
      | none => .error (.keyError key)
  | _ => .error .typeError

/-- The arguments of `client.checkout.Session.create`. -/
def sessionArguments (user : User) (planKey priceId successUrl cancelUrl : String) : Json :=
  .obj [("mode", .str "subscription"),
    ("line_items", .arr [.obj [("price", .str priceId), ("quantity", .int 1)]]),
    ("success_url", .str successUrl),
    ("cancel_url", .str cancelUrl),
    ("client_reference_id", .str user.id),
    ("customer_email", (user.email.map Json.str).getD .null),
    ("metadata", .obj [("user_id", .str user.id), ("plan", .str planKey)])]

/-- `create_checkout_session`: the id and the address of the new session. -/
def createCheckoutSession (user : User) (planKey successUrl cancelUrl : String) :
    Except BillingError (Json × Json) :=
  let plan := planFor planKey
  let priceId := if plan.priceEnv = "" then none else getenv plan.priceEnv
  match priceId.filter (· ≠ "") with
  | none => .error (.valueError
      ("no Stripe price configured for plan '" ++ planKey ++ "' (" ++ plan.priceEnv ++ ")"))
  | some priceId => do
      let session ← create (sessionArguments user planKey priceId successUrl cancelUrl)
      let id ← index session "id"
      let url ← index session "url"
      return (id, url)

end Checkout

/-! ## The webhook -/

/-- `Entitlement`, whose fields nothing checks. -/
structure Entitlement where
  userId : Json
  plan : Json

/-- `key in obj`. -/
def contains (obj : Json) (key : String) : Except BillingError Bool :=
  match obj with
  | .obj entries => .ok (Json.value? entries key).isSome
  | .arr items => .ok (items.any fun | .str s => s = key | _ => false)
  | .str s => .ok (decide (key.toList <:+: s.toList))
  | _ => .error .typeError

/-- `_get`. -/
def get (obj : Json) (key : String) (default : Json) : Except BillingError Json := do
  if ← contains obj key then index obj key else return default

/-- The end of `handle_webhook`: nobody is granted nothing. -/
def grant (meta' userId : Json) : Except BillingError (Option Entitlement) :=
  if userId.truthy then do
    let plan ← get meta' "plan" (.str "pro")
    return some ⟨userId, plan⟩
  else return none

/-- The reference, or the user of the metadata: they are read only without a reference. -/
def userOf (meta' reference : Json) : Except BillingError Json :=
  if reference.truthy then .ok reference else get meta' "user_id" .null

/-- What `handle_webhook` makes of the session of a completed checkout. -/
def entitlementOf (session : Json) : Except BillingError (Option Entitlement) := do
  let meta' ← get session "metadata" (.obj [])
  let reference ← get session "client_reference_id" .null
  let userId ← userOf meta' reference
  grant meta' userId

/-- `event["type"] == "checkout.session.completed"`. -/
def isCompleted : Json → Bool
  | .str s => s = "checkout.session.completed"
  | _ => false

/-- `handle_webhook`, by the service's check of the signature. -/
def handleWebhook (constructEvent : String → String → String → Except BillingError Json)
    (payload sigHeader secret : String) : Except BillingError (Option Entitlement) := do
  let event ← constructEvent payload sigHeader secret
  let type ← index event "type"
  if isCompleted type then
    let data ← index event "data"
    let session ← index data "object"
    entitlementOf session
  else return none

/-! ## What is to be granted -/

/-- A text that names somebody. -/
def named : Json → Option String
  | .str s => if s = "" then none else some s
  | _ => none

/-- The field of an object, and none of any other value. -/
def field? (v : Json) (key : String) : Option Json :=
  match v with
  | .obj entries => Json.value? entries key
  | _ => none

section Session

variable (session : List (String × Json))

/-- The metadata of a session, none if there is none. -/
def metadataOf : Json := (Json.value? session "metadata").getD (.obj [])

/-- The reference of a session, null if there is none. -/
def referenceOf : Json := (Json.value? session "client_reference_id").getD .null

/-- The user in the metadata. -/
def metadataUser : Option String := (field? (metadataOf session) "user_id").bind named

/-- The plan in the metadata, or `pro`. -/
def planOf : Json := (field? (metadataOf session) "plan").getD (.str "pro")

/-- A completed checkout is granted: to its reference, or else to the user of the metadata, and to
nobody only if neither is there. -/
structure Grants (outcome : Except BillingError (Option Entitlement)) : Prop where
  returns : ∃ granted, outcome = .ok granted
  reference : ∀ id, named (referenceOf session) = some id →
    outcome = .ok (some ⟨.str id, planOf session⟩)
  metadata : named (referenceOf session) = none → ∀ id, metadataUser session = some id →
    outcome = .ok (some ⟨.str id, planOf session⟩)
  nobody : outcome = .ok none → named (referenceOf session) = none ∧ metadataUser session = none

/-- A value that can be asked for a key: an object, or a text or an array without it. -/
def Readable (v : Json) (key : String) : Prop :=
  match v with
  | .obj _ => True
  | .str s => ¬key.toList <:+: s.toList
  | .arr items => (items.any fun | .str s => s = key | _ => false) = false
  | _ => False

/-- What is read of the metadata can be read: the plan if there is a reference, and the user if
there is none. A reference that is no text does not stand before a user who is one. -/
def MetadataReadable : Prop :=
  if (referenceOf session).truthy then
    Readable (metadataOf session) "plan" ∧
      (named (referenceOf session) = none → metadataUser session = none)
  else Readable (metadataOf session) "user_id"

end Session

/-! ## Reading -/

variable {session : List (String × Json)}

theorem get_obj (entries : List (String × Json)) (key : String) (default : Json) :
    get (.obj entries) key default = .ok ((Json.value? entries key).getD default) := by
  cases h : Json.value? entries key with
  | none => simp [get, contains, h, bind, Except.bind, pure, Except.pure]
  | some v => simp [get, contains, index, h, bind, Except.bind]

/-- A value that can be asked for a key gives its field or the default. -/
theorem get_of_readable {v : Json} {key : String} (h : Readable v key) (default : Json) :
    get v key default = .ok ((field? v key).getD default) := by
  cases v with
  | obj entries => exact get_obj entries key default
  | str s =>
      have hnot : ¬key.toList <:+: s.toList := h
      simp [get, contains, field?, hnot, bind, Except.bind, pure, Except.pure]
  | arr items =>
      have hnot : (items.any fun | .str s => s = key | _ => false) = false := h
      simp [get, contains, field?, hnot, bind, Except.bind, pure, Except.pure]
  | null => exact h.elim
  | bool b => exact h.elim
  | int n => exact h.elim
  | float x => exact h.elim

/-- Any other value fails. -/
theorem get_of_not_readable {v : Json} {key : String} (h : ¬Readable v key) (default : Json) :
    get v key default = .error .typeError := by
  cases v with
  | obj entries => exact absurd trivial h
  | str s =>
      have hin : key.toList <:+: s.toList := by
        by_contra hnot
        exact h hnot
      simp [get, contains, index, hin, bind, Except.bind]
  | arr items =>
      have hin : (items.any fun | .str s => s = key | _ => false) = true := by
        by_contra hnot
        exact h (Bool.eq_false_iff.2 hnot)
      simp [get, contains, index, hin, bind, Except.bind]
  | null => rfl
  | bool b => rfl
  | int n => rfl
  | float x => rfl

theorem named_eq_some_iff {v : Json} {id : String} : named v = some id ↔ v = .str id ∧ id ≠ "" := by
  cases v with
  | str s =>
      rw [named]
      split_ifs with hempty
      · simp [hempty, eq_comm]
      · constructor
        · intro h
          obtain rfl := Option.some_inj.1 h
          exact ⟨rfl, hempty⟩
        · rintro ⟨h, -⟩
          rw [Json.str.inj h]
  | null => simp [named]
  | bool b => simp [named]
  | int n => simp [named]
  | float x => simp [named]
  | arr items => simp [named]
  | obj entries => simp [named]

/-- Who is named is there. -/
theorem truthy_of_named {v : Json} {id : String} (h : named v = some id) : v.truthy = true := by
  obtain ⟨rfl, hid⟩ := named_eq_some_iff.1 h
  simpa [Json.truthy] using hid

theorem not_named_of_not_truthy {v : Json} (h : v.truthy = false) : named v = none := by
  cases hnamed : named v with
  | none => rfl
  | some id =>
      rw [truthy_of_named hnamed] at h
      cases h

/-- Only an object has fields. -/
theorem readable_of_field {v w : Json} {key : String} (h : field? v key = some w) (other : String) :
    Readable v other := by
  cases v with
  | obj entries => exact trivial
  | null => cases h
  | bool b => cases h
  | int n => cases h
  | float x => cases h
  | str s => cases h
  | arr items => cases h

/-! ## Who is granted -/

theorem entitlementOf_obj (session : List (String × Json)) :
    entitlementOf (.obj session) =
      userOf (metadataOf session) (referenceOf session) >>= grant (metadataOf session) := by
  rw [entitlementOf, get_obj, get_obj]
  rfl

theorem grant_of_readable {meta' v : Json} (hv : v.truthy = true) (h : Readable meta' "plan") :
    grant meta' v = .ok (some ⟨v, (field? meta' "plan").getD (.str "pro")⟩) := by
  rw [grant, if_pos hv, get_of_readable h]
  rfl

theorem grant_of_not_truthy {meta' v : Json} (hv : v.truthy = false) :
    grant meta' v = .ok none := by
  rw [grant, if_neg (by simp [hv])]
  rfl

/-- Who fails grants nothing, and does not say so either. -/
theorem not_grants_error (e : BillingError) : ¬Grants session (.error e) := by
  intro h
  obtain ⟨granted, hgranted⟩ := h.returns
  cases hgranted

/-- With a reference the plan is read, and the reference is granted it. -/
theorem grants_of_reference (h : (referenceOf session).truthy = true) :
    Grants session (entitlementOf (.obj session)) ↔ MetadataReadable session := by
  rw [entitlementOf_obj, userOf, if_pos h, MetadataReadable, if_pos h]
  show Grants session (grant (metadataOf session) (referenceOf session)) ↔ _
  by_cases hplan : Readable (metadataOf session) "plan"
  · rw [grant_of_readable h hplan]
    constructor
    · intro hgrants
      have hother : named (referenceOf session) = none → metadataUser session = none := by
        intro hunnamed
        cases huser : metadataUser session with
        | none => rfl
        | some id =>
            -- a user of the metadata is granted only if the reference is that user
            have hgranted := hgrants.metadata hunnamed id huser
            injection hgranted with hgranted
            injection hgranted with hgranted
            injection hgranted with hreference
            rw [hreference] at hunnamed h
            rw [named, if_neg (by simpa [Json.truthy] using h)] at hunnamed
            cases hunnamed
      exact ⟨hplan, hother⟩
    · rintro ⟨-, hother⟩
      constructor
      · exact ⟨_, rfl⟩
      · intro id hid
        rw [(named_eq_some_iff.1 hid).1]
        rfl
      · intro hunnamed id hid
        rw [hother hunnamed] at hid
        cases hid
      · intro hnobody
        cases hnobody
  · rw [grant, if_pos h, get_of_not_readable hplan]
    exact ⟨fun hgrants => absurd hgrants (not_grants_error _), fun hread => absurd hread.1 hplan⟩

/-- A value that is not there is granted nothing, and any other is granted the plan. -/
theorem grants_field (h : (referenceOf session).truthy = false) :
    Grants session
      (grant (metadataOf session) ((field? (metadataOf session) "user_id").getD .null)) := by
  have hunnamed := not_named_of_not_truthy h
  cases hfield : field? (metadataOf session) "user_id" with
  | none =>
      have hnobody : metadataUser session = none := by
        rw [metadataUser, hfield]
        rfl
      rw [Option.getD_none, grant_of_not_truthy rfl]
      exact ⟨⟨_, rfl⟩, fun id hid => absurd (hid.symm.trans hunnamed) (by simp),
        fun _ id hid => absurd (hid.symm.trans hnobody) (by simp), fun _ => ⟨hunnamed, hnobody⟩⟩
  | some v =>
      have huser : metadataUser session = named v := by
        rw [metadataUser, hfield]
        rfl
      rw [Option.getD_some]
      cases hv : v.truthy with
      | true =>
          rw [grant_of_readable hv (readable_of_field hfield "plan")]
          constructor
          · exact ⟨_, rfl⟩
          · intro id hid
            rw [hunnamed] at hid
            cases hid
          · intro _ id hid
            rw [huser] at hid
            rw [(named_eq_some_iff.1 hid).1]
            rfl
          · intro hnobody
            cases hnobody
      | false =>
          have hnobody : metadataUser session = none := huser.trans (not_named_of_not_truthy hv)
          rw [grant_of_not_truthy hv]
          exact ⟨⟨_, rfl⟩, fun id hid => absurd (hid.symm.trans hunnamed) (by simp),
            fun _ id hid => absurd (hid.symm.trans hnobody) (by simp), fun _ => ⟨hunnamed, hnobody⟩⟩

/-- Without a reference the user of the metadata is read, and granted the plan. -/
theorem grants_of_no_reference (h : (referenceOf session).truthy = false) :
    Grants session (entitlementOf (.obj session)) ↔ MetadataReadable session := by
  have hno : ¬(referenceOf session).truthy = true := by simp [h]
  rw [entitlementOf_obj, userOf, if_neg hno, MetadataReadable, if_neg hno]
  by_cases huser : Readable (metadataOf session) "user_id"
  · rw [get_of_readable huser]
    exact ⟨fun _ => huser, fun _ => grants_field h⟩
  · rw [get_of_not_readable huser]
    exact ⟨fun hgrants => absurd hgrants (not_grants_error _), fun hread => absurd hread huser⟩

section Webhook

variable {constructEvent : String → String → String → Except BillingError Json}
  {payload sigHeader secret : String} {event data : Json}

/-- A verified event of a completed checkout is handled by its session. -/
theorem handleWebhook_completed (hverified : constructEvent payload sigHeader secret = .ok event)
    (htype : index event "type" = .ok (.str "checkout.session.completed"))
    (hdata : index event "data" = .ok data) (hsession : index data "object" = .ok (.obj session)) :
    handleWebhook constructEvent payload sigHeader secret = entitlementOf (.obj session) := by
  have hcompleted : isCompleted (.str "checkout.session.completed") = true := by decide
  simp only [handleWebhook, hverified, htype, hdata, hsession, hcompleted, bind, Except.bind,
    if_true]

/-- A completed checkout is granted exactly if what is read of its metadata can be read. -/
theorem grants_iff (hverified : constructEvent payload sigHeader secret = .ok event)
    (htype : index event "type" = .ok (.str "checkout.session.completed"))
    (hdata : index event "data" = .ok data) (hsession : index data "object" = .ok (.obj session)) :
    Grants session (handleWebhook constructEvent payload sigHeader secret) ↔
      MetadataReadable session := by
  rw [handleWebhook_completed hverified htype hdata hsession]
  cases h : (referenceOf session).truthy with
  | true => exact grants_of_reference h
  | false => exact grants_of_no_reference h

end Webhook

/-- Where the ids are texts or missing and the metadata is missing, null or an object, it must not
be null. -/
theorem metadataReadable_iff_ne_null
    (hreference : referenceOf session = .null ∨ ∃ s, referenceOf session = .str s)
    (hmetadata : metadataOf session = .null ∨ ∃ entries, metadataOf session = .obj entries) :
    MetadataReadable session ↔ metadataOf session ≠ .null := by
  have hother : (referenceOf session).truthy = true → named (referenceOf session) = none →
      metadataUser session = none := by
    intro htruthy hunnamed
    rcases hreference with hnull | ⟨s, hs⟩
    · rw [hnull] at htruthy
      cases htruthy
    · rw [hs] at htruthy hunnamed
      rw [named, if_neg (by simpa [Json.truthy] using htruthy)] at hunnamed
      cases hunnamed
  rw [MetadataReadable]
  rcases hmetadata with hnull | ⟨entries, hentries⟩
  · rw [hnull]
    simp [Readable]
  · rw [hentries]
    split_ifs with htruthy
    · exact ⟨fun _ => by simp, fun _ => ⟨trivial, hother htruthy⟩⟩
    · exact ⟨fun _ => by simp, fun _ => trivial⟩

/-- What was told the service at checkout is granted once the checkout is completed. -/
theorem grants_created {user : User} {planKey priceId successUrl cancelUrl : String}
    {created : List (String × Json)}
    (hcreated : sessionArguments user planKey priceId successUrl cancelUrl = .obj created)
    (hreference : referenceOf session = referenceOf created)
    (hmetadata : metadataOf session = metadataOf created) (huser : user.id ≠ "") :
    entitlementOf (.obj session) = .ok (some ⟨.str user.id, .str planKey⟩) := by
  obtain rfl := Json.obj.inj hcreated
  have hread : referenceOf session = .str user.id := hreference.trans rfl
  have hmeta : metadataOf session =
      .obj [("user_id", .str user.id), ("plan", .str planKey)] := hmetadata.trans rfl
  have hnamed : named (referenceOf session) = some user.id := by
    rw [hread, named, if_neg huser]
  have hreadable : MetadataReadable session := by
    rw [MetadataReadable, if_pos (truthy_of_named hnamed), hmeta, hnamed]
    exact ⟨trivial, fun h => by cases h⟩
  have hgranted := ((grants_of_reference (truthy_of_named hnamed)).2 hreadable).reference _ hnamed
  rw [hgranted, planOf, hmeta]
  rfl

/-! ## A paid session without metadata -/

/-- The event of a completed checkout. -/
def completed (session : List (String × Json)) : Json :=
  .obj [("object", .str "event"), ("type", .str "checkout.session.completed"),
    ("data", .obj [("object", .obj session)])]

/-- A service that finds every signature in order, and hands over one event. -/
def delivers (event : Json) (_payload _sigHeader _secret : String) : Except BillingError Json :=
  .ok event

theorem grants_iff_user_123 :
    Grants [("client_reference_id", .str "user-123")]
        (handleWebhook (delivers (completed [("client_reference_id", .str "user-123")]))
          "payload" "header" "secret") ↔
      MetadataReadable [("client_reference_id", .str "user-123")] :=
  grants_iff rfl rfl rfl rfl

/-- Metadata that is null fails, though the reference says who has paid. -/
theorem null_metadata_fails :
    handleWebhook (delivers (completed
        [("client_reference_id", .str "user-123"), ("metadata", .null)]))
        "payload" "header" "secret" = .error .typeError ∧
      ¬Grants [("client_reference_id", .str "user-123"), ("metadata", .null)]
        (handleWebhook (delivers (completed
          [("client_reference_id", .str "user-123"), ("metadata", .null)]))
          "payload" "header" "secret") := by
  have hfails : handleWebhook (delivers (completed
      [("client_reference_id", .str "user-123"), ("metadata", .null)]))
      "payload" "header" "secret" = .error .typeError := by rfl
  constructor
  · exact hfails
  · rw [hfails]
    exact not_grants_error _

end DealFinder.Billing
