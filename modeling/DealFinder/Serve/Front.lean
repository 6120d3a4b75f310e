/-
# The front of the service

Two middlewares stand before the routes. `edge_guard` runs first: with a secret set, only requests
that bring it go on, the health checks apart. `rate_limit` counts what goes on against the visitor.

A refused request leaves no trace: the others are answered as if it had not been sent, and of what
reaches a limited route no visitor sends more than the limit (`front_guarded`). The secret the
guard asks for is the one the Worker brings, once both came from the deploy commands
(`worker_admitted`).

Headers arrive as they are sent.
-/

import DealFinder.Deploy.Startup
import DealFinder.Edge.Forward
import DealFinder.Limits.Bound
import DealFinder.Limits.ClientKey

namespace DealFinder.Front

open DealFinder.Math DealFinder.Limits
open DealFinder.Deploy.Commands (Command Production production fresh Sound contents run_sound
  run_keepsUp step_sound keepsUp_of_edgeSet KeepsUp trimEnd launch deniedPush honest_launch)
open DealFinder.Deploy.Startup (Environ loadSecrets payloadText loadSecrets_of_tidy firstVersion
  tokensPush)
open DealFinder.Deploy.LoginRole (Ends)
open DealFinder.Deploy.Merges (storedObject_of_ends)

/-- A request as the middlewares see it, at a reading of the limiter's clock. -/
structure Arrival where
  path : String
  sender : Sender
  now : ℚ

/-- `_EDGE_EXEMPT`. -/
def edgeExempt : List String := ["/healthz", "/health", "/readyz"]

/-- What `edge_guard` refuses. -/
def Arrival.refused (secret : Option String) (a : Arrival) : Bool :=
  secretSet secret && decide (a.path ∉ edgeExempt) &&
    decide ((a.sender.headers.lookup "x-dealfinder-edge").getD "" ≠ secret.getD "")

/-- How the front answers: with a 403, with a 429 and its `Retry-After`, not at all but on to the
route, or in an exception. -/
inductive Admission
  | forbidden
  | slowDown (retryAfter : ℤ)
  | passed
  | raised
  deriving DecidableEq

/-- What `rate_limit` makes of the limiter's answer. -/
def admissionOf : Answer → Admission
  | .ok none => .passed
  | .ok (some wait) => .slowDown (max 1 ⌈wait⌉)
  | .error _ => .raised

/-- `rate_limit`, where `ratelimit.enabled()` says whether it counts. -/
def rateLimit (secret : Option String) (enabled : Bool) (lim : Limiter) (a : Arrival) :
    Admission × Limiter :=
  if enabled then
    match clientKey secret a.sender with
    | none => (.raised, lim)
    | some client =>
        (admissionOf (lim.check a.path client a.now).1, (lim.check a.path client a.now).2)
  else (.passed, lim)

/-- The two middlewares. -/
def front (secret : Option String) (enabled : Bool) : Machine Limiter Arrival Admission where
  step lim a := if a.refused secret then (.forbidden, lim) else rateLimit secret enabled lim a

/-! ## What the limiter is asked -/

/-- The call of the limiter for a request. -/
def askedOf (secret : Option String) (a : Arrival) : Option Request :=
  if a.refused secret then none
  else (clientKey secret a.sender).map fun client => ⟨a.path, client, a.now⟩

/-- The calls for a run. -/
def asked (secret : Option String) (arrivals : List Arrival) : List Request :=
  arrivals.filterMap (askedOf secret)

/-- The times at which requests of a visitor reach a route. -/
def reachedTimes (secret : Option String) (lim : Limiter) (path client : String)
    (arrivals : List Arrival) : List ℚ :=
  (front secret true).observe
    (fun a admission =>
      if a.path = path ∧ clientKey secret a.sender = some client ∧ admission = .passed then
        some a.now
      else none)
    lim arrivals

section Front

variable {secret : Option String} {enabled : Bool} {lim : Limiter} {a : Arrival}
  {arrivals : List Arrival} {path client : String}

/-- A visitor always has a key. -/
theorem exists_clientKey (secret : Option String) (sender : Sender) :
    ∃ client, clientKey secret sender = some client := by
  cases h : readIp (clientIp secret sender).toList with
  | none =>
      rw [clientKey, h]
      exact ⟨_, rfl⟩
  | some address =>
      cases address with
      | v4 a => exact ⟨_, clientKey_v4 h⟩
      | v6 a => exact ⟨_, clientKey_v6 h⟩

theorem step_of_refused (h : a.refused secret = true) :
    (front secret enabled).step lim a = (.forbidden, lim) := if_pos h

/-- A request that goes on is answered as the limiter says. -/
theorem step_of_asked (h : a.refused secret = false)
    (hkey : clientKey secret a.sender = some client) :
    (front secret true).step lim a =
      (admissionOf (Limits.machine.step lim ⟨a.path, client, a.now⟩).1,
        (Limits.machine.step lim ⟨a.path, client, a.now⟩).2) := by
  have hnot : ¬ a.refused secret = true := by
    rw [h]
    exact Bool.false_ne_true
  simp only [front, if_neg hnot, rateLimit, if_true, hkey]
  rfl

theorem admissionOf_eq_passed {answer : Answer} :
    admissionOf answer = .passed ↔ answer = .ok none := by
  cases answer with
  | error e => exact ⟨nofun, nofun⟩
  | ok wait =>
      cases wait with
      | none => exact ⟨fun _ => rfl, fun _ => rfl⟩
      | some wait => exact ⟨nofun, nofun⟩

theorem askedOf_of_refused (h : a.refused secret = true) : askedOf secret a = none := if_pos h

theorem askedOf_of_asked (h : a.refused secret = false)
    (hkey : clientKey secret a.sender = some client) :
    askedOf secret a = some ⟨a.path, client, a.now⟩ := by
  rw [askedOf, h, hkey]
  rfl

theorem now_of_askedOf {request : Request} (h : askedOf secret a = some request) :
    request.now = a.now := by
  rw [askedOf] at h
  split_ifs at h
  obtain ⟨client, -, rfl⟩ := Option.map_eq_some_iff.1 h
  rfl

/-- **The limiter is asked** for what is not refused, and for nothing else. -/
theorem run_front (secret : Option String) (lim : Limiter) (arrivals : List Arrival) :
    (front secret true).run lim arrivals = Limits.machine.run lim (asked secret arrivals) := by
  induction arrivals generalizing lim with
  | nil => rfl
  | cons a rest ih =>
      cases hrefused : a.refused secret with
      | true =>
          rw [Machine.run_cons, step_of_refused hrefused, asked,
            List.filterMap_cons_none (askedOf_of_refused hrefused)]
          exact ih lim
      | false =>
          obtain ⟨client, hkey⟩ := exists_clientKey secret a.sender
          rw [Machine.run_cons, step_of_asked hrefused hkey, asked,
            List.filterMap_cons_some (askedOf_of_asked hrefused hkey), Machine.run_cons]
          exact ih _

/-- What reaches a route is what the limiter admits. -/
theorem reachedTimes_eq (secret : Option String) (lim : Limiter) (path client : String)
    (arrivals : List Arrival) :
    reachedTimes secret lim path client arrivals =
      admittedTimes lim path client (asked secret arrivals) := by
  induction arrivals generalizing lim with
  | nil => rfl
  | cons a rest ih =>
      rw [reachedTimes, Machine.observe]
      cases hrefused : a.refused secret with
      | true =>
          rw [step_of_refused hrefused, if_neg (by rintro ⟨-, -, h⟩; cases h), asked,
            List.filterMap_cons_none (askedOf_of_refused hrefused)]
          exact ih lim
      | false =>
          obtain ⟨found, hkey⟩ := exists_clientKey secret a.sender
          rw [step_of_asked hrefused hkey, asked,
            List.filterMap_cons_some (askedOf_of_asked hrefused hkey), admittedTimes,
            Machine.observe]
          have hsame : (a.path = path ∧ clientKey secret a.sender = some client ∧
              admissionOf (Limits.machine.step lim ⟨a.path, found, a.now⟩).1 = .passed) ↔
                (a.path = path ∧ found = client ∧
                  (Limits.machine.step lim ⟨a.path, found, a.now⟩).1 = .ok none) := by
            rw [hkey, Option.some_inj, admissionOf_eq_passed]
          rw [if_congr hsame rfl rfl]
          exact congrArg _ (ih _)

/-- Refused requests change nothing. -/
theorem run_filter (enabled : Bool) (lim : Limiter) (arrivals : List Arrival) :
    (front secret enabled).run lim arrivals =
        (front secret enabled).run lim (arrivals.filter fun a => !a.refused secret) ∧
      (front secret enabled).observe
          (fun a admission => if a.refused secret then none else some admission) lim arrivals =
        (front secret enabled).observe (fun _ admission => some admission) lim
          (arrivals.filter fun a => !a.refused secret) := by
  induction arrivals generalizing lim with
  | nil => exact ⟨rfl, rfl⟩
  | cons a rest ih =>
      cases hrefused : a.refused secret with
      | true =>
          rw [List.filter_cons_of_neg (by rw [hrefused]; exact Bool.false_ne_true),
            Machine.run_cons, Machine.observe, step_of_refused hrefused, hrefused]
          exact ih lim
      | false =>
          obtain ⟨hrun, hobserve⟩ := ih ((front secret enabled).step lim a).2
          rw [List.filter_cons_of_pos (by rw [hrefused]; rfl), Machine.run_cons, Machine.run_cons,
            Machine.observe, Machine.observe, hrefused, hrun, hobserve]
          exact ⟨rfl, rfl⟩

/-- The limiter answers, whatever it was asked before. -/
theorem check_answers {limits : Dict String (ℕ × ℚ)} {maxKeys : ℕ}
    (hnew : Limiter.new limits maxKeys = .ok lim)
    (hwindows : ∀ path limit window, limits.get? path = some (limit, window) → 0 < window)
    (past : List Request) (request : Request) (hchron : Chronological (past ++ [request])) :
    ∃ wait, (Limits.machine.answerAfter lim past request) = .ok wait := by
  cases hpath : limits.get? request.path with
  | none =>
      have hnone := run_windows_none hnew hpath past
      exact ⟨none, congrArg Prod.fst (check_of_windows_none hnone request.client request.now)⟩
  | some entry =>
      obtain ⟨limit, window⟩ := entry
      obtain ⟨w, hserves⟩ := run_serves hnew hpath past hchron.left hchron.le_last
      change ∃ wait, ((Limits.machine.run lim past).check request.path request.client
        request.now).1 = .ok wait
      rw [check_fst hserves.found]
      have hwindow : 0 < w.window := by
        rw [hserves.window_eq]
        exact hwindows _ _ _ hpath
      by_cases hceiling : AtCeiling (Limits.machine.run lim past).maxKeys
          ((Limits.machine.run lim past).lastShrink.get? request.path) w
          (Limiter.keyOf request.path request.client) request.now
      · exact ⟨_, (checkWindow_of_atCeiling hceiling).1⟩
      · by_cases hroom : (live w.window request.now
            (w.queue (Limiter.keyOf request.path request.client))).length < w.limit
        · exact ⟨_, (checkWindow_of_room hserves.valid hwindow hceiling hroom).1⟩
        · obtain ⟨oldest, rest, -, hanswer, -⟩ :=
            checkWindow_of_full hserves.valid hceiling (not_lt.1 hroom)
          exact ⟨_, hanswer⟩

end Front

/-- The clock never goes back. -/
def Clocked (arrivals : List Arrival) : Prop :=
  arrivals.Pairwise fun earlier later => earlier.now ≤ later.now

/-- What the front does in a run, with the limits on. -/
structure Guarded (secret : Option String) (limits : Dict String (ℕ × ℚ)) (lim : Limiter)
    (arrivals : List Arrival) : Prop where
  /-- A request is refused for want of the secret, and for nothing else. -/
  refuses : ∀ past a rest, arrivals = past ++ a :: rest →
    ((front secret true).answerAfter lim past a = .forbidden ↔ a.refused secret = true)
  /-- Nothing raises. -/
  answers : ∀ past a rest, arrivals = past ++ a :: rest →
    (front secret true).answerAfter lim past a ≠ .raised
  /-- The others are answered as if nothing had been refused. -/
  inert : (front secret true).observe
      (fun a admission => if a.refused secret then none else some admission) lim arrivals =
    (front secret true).observe (fun _ admission => some admission) lim
      (arrivals.filter fun a => !a.refused secret)
  /-- No visitor that the cleanups spare reaches a limited route more often than its limit says. -/
  limited : ∀ path limit window client, limits.get? path = some (limit, window) →
    Limits.machine.Along (SparesClient path client) lim (asked secret arrivals) →
      ∀ t, (within window t (reachedTimes secret lim path client arrivals)).length ≤ limit

theorem Clocked.asked {secret : Option String} {arrivals : List Arrival} (h : Clocked arrivals) :
    Chronological (asked secret arrivals) := by
  refine List.Pairwise.filterMap _ (fun a a' hle request hrequest request' hrequest' => ?_) h
  rw [now_of_askedOf hrequest, now_of_askedOf hrequest']
  exact hle

/-- **The front**, in every run with the limits on. -/
theorem front_guarded (secret : Option String) (limits : Dict String (ℕ × ℚ)) (maxKeys : ℕ)
    (lim : Limiter) (arrivals : List Arrival) (hnew : Limiter.new limits maxKeys = .ok lim)
    (hwindows : ∀ path limit window, limits.get? path = some (limit, window) → 0 < window)
    (hclock : Clocked arrivals) : Guarded secret limits lim arrivals := by
  have hanswer : ∀ past a rest, arrivals = past ++ a :: rest → a.refused secret = false →
      ∃ wait, (front secret true).answerAfter lim past a = admissionOf (.ok wait) := by
    rintro past a rest rfl hrefused
    obtain ⟨client, hkey⟩ := exists_clientKey secret a.sender
    have hasked : asked secret (past ++ [a]) =
        asked secret past ++ [⟨a.path, client, a.now⟩] := by
      rw [asked, List.filterMap_append]
      exact congrArg _ (List.filterMap_cons_some (askedOf_of_asked hrefused hkey))
    have hpast : Clocked (past ++ [a]) :=
      hclock.sublist ((List.cons_sublist_cons.2 (List.nil_sublist rest)).append_left past)
    have hchron : Chronological (asked secret (past ++ [a])) := hpast.asked
    rw [hasked] at hchron
    obtain ⟨wait, hwait⟩ := check_answers hnew hwindows _ _ hchron
    refine ⟨wait, ?_⟩
    rw [Machine.answerAfter, run_front, step_of_asked hrefused hkey]
    exact congrArg admissionOf hwait
  refine ⟨fun past a rest heq => ?_, fun past a rest heq => ?_, (run_filter true lim arrivals).2,
    fun path limit window client hpath hspares t => ?_⟩
  · cases hrefused : a.refused secret with
    | true => exact iff_of_true (congrArg Prod.fst (step_of_refused hrefused)) rfl
    | false =>
        obtain ⟨wait, hwait⟩ := hanswer past a rest heq hrefused
        rw [hwait]
        cases wait <;> exact iff_of_false Admission.noConfusion Bool.false_ne_true
  · cases hrefused : a.refused secret with
    | true =>
        rw [Machine.answerAfter, step_of_refused hrefused]
        exact Admission.noConfusion
    | false =>
        obtain ⟨wait, hwait⟩ := hanswer past a rest heq hrefused
        rw [hwait]
        cases wait <;> exact Admission.noConfusion
  · rw [reachedTimes_eq]
    have hchron : Chronological (asked secret arrivals) := hclock.asked
    obtain ⟨now, hnow⟩ := hchron.exists_now
    obtain ⟨w, haccounted⟩ :=
      run_accounted hnew hpath (hwindows _ _ _ hpath) _ hchron hspares hnow
    exact haccounted.admissible.window_le haccounted.sorted t

/-- A visitor of `/ask` through the Worker, one who has no secret, and a health check. -/
def threeArrivals : List Arrival :=
  [⟨"/ask", ⟨[("x-dealfinder-edge", "s"), ("cf-connecting-ip", "192.0.2.1")], some "10.0.0.1"⟩, 0⟩,
    ⟨"/ask", ⟨[("cf-connecting-ip", "192.0.2.1")], some "10.0.0.1"⟩, 1⟩,
    ⟨"/healthz", ⟨[], none⟩, 2⟩]

theorem front_guarded_three : ∃ lim, Limiter.new defaultLimits 10000 = .ok lim ∧
    Guarded (some "s") defaultLimits lim threeArrivals := by
  obtain ⟨lim, hnew⟩ := new_defaultLimits 10000
  refine ⟨lim, hnew, front_guarded (some "s") defaultLimits 10000 lim threeArrivals hnew
    (fun path limit window hpath => ?_) ?_⟩
  · have hall : ∀ entry ∈ defaultLimits.entries, 0 < entry.2.2 := by decide +kernel
    exact hall (path, limit, window) (Dict.get?_eq_some_iff.1 hpath)
  · simp only [Clocked, threeArrivals]
    decide +kernel

/-! ## The secret at both ends -/

/-- What the Worker sends, from one of its addresses. -/
def arrivalOf (sent : Edge.Sent) (client : Option String) (now : ℚ) : Arrival :=
  ⟨sent.path, ⟨sent.headers.entries, client⟩, now⟩

theorem lookup_entries (entries : List (String × String)) (key : String) :
    entries.lookup key = (entries.find? fun entry => entry.1 = key).map Prod.snd := by
  induction entries with
  | nil => rfl
  | cons entry rest ih =>
      obtain ⟨name, value⟩ := entry
      by_cases hkey : key = name
      · simp [hkey]
      · have hne : ¬ name = key := fun h => hkey h.symm
        simp [List.lookup_cons, beq_false_of_ne hkey, hne, ih]

/-- A guard with the secret that the Worker's header brings lets its requests in. -/
theorem refused_sentOf (env : Edge.Env) (request : Edge.Request) (path search : String)
    (client : Option String) (now : ℚ) :
    (arrivalOf (Edge.sentOf env request path search) client now).refused
      (some env.edgeHeader) = false := by
  have hheader : (Edge.sentOf env request path search).headers.entries.lookup
      "x-dealfinder-edge" = some env.edgeHeader :=
    (lookup_entries _ _).trans (@Edge.secret_sentOf env request path search)
  rw [Arrival.refused, arrivalOf, hheader]
  simp

/-- **One secret at both ends.** The edge secret is handed to the Worker, and the service starts
with the latest version after any further commands, none of which pushes another edge secret from
an env file. Then the guard lets in whatever the Worker sends, if `wrangler` and a header keep the
secret as it is and nothing else sets it for the service. -/
theorem worker_admitted (wrangler : String → String) (start : Production)
    (past later : List Command) (access put : Option String) (hstart : Sound start.store)
    (hhonest : ∀ command ∈ past ++ .edge access put :: later, command.Honest)
    (hset : (production wrangler).answerAfter start past (.edge access put) = .ok .edgeSet)
    (hlater : ∀ command ∈ later, ¬ command.Sets "EDGE_SHARED_SECRET")
    (latest : Deploy.Secrets.Version)
    (hends : Ends ((production wrangler).run start (past ++ .edge access put :: later)).store
      latest)
    (environ : Environ)
    (hraw : environ.get? "DEALFINDER_SECRETS_JSON" = some (payloadText latest.payload))
    (hunset : environ.get? "EDGE_SHARED_SECRET" = none)
    (hzero : ∀ key value, latest.payload.get? key = some value → '\x00' ∉ value.toList)
    (env : Edge.Env)
    (hworker : ((production wrangler).run start (past ++ .edge access put :: later)).worker =
      some env.edgeSharedSecret.text)
    (hheader : ∀ secret, latest.payload.get? "EDGE_SHARED_SECRET" = some secret →
      Edge.headerValue (wrangler secret) = secret) :
    ∃ after, loadSecrets environ = (.ok (), after) ∧
      ∀ request path search client now,
        (arrivalOf (Edge.sentOf env request path search) client now).refused
          (after.get? "EDGE_SHARED_SECRET") = false := by
  obtain ⟨hpast, hrest⟩ := List.forall_mem_append.1 hhonest
  obtain ⟨hnow, hnext⟩ := List.forall_mem_cons.1 hrest
  have hsound : Sound ((production wrangler).run start past).store := run_sound hstart hpast
  obtain ⟨edge, -, hkeeps⟩ := keepsUp_of_edgeSet hnow hset
  have hboth : KeepsUp wrangler edge
      ((production wrangler).run start (past ++ .edge access put :: later)) := by
    rw [Machine.run_append, Machine.run_cons]
    exact run_keepsUp (step_sound hsound hnow) hnext hlater hkeeps
  have hlast : Sound ((production wrangler).run start (past ++ .edge access put :: later)).store :=
    run_sound hstart hhonest
  have htidy := hlast.tidy
  rw [storedObject_of_ends hends] at htidy
  obtain ⟨after, hafter, hget⟩ := loadSecrets_of_tidy htidy hzero hraw
  refine ⟨after, hafter, fun request path search client now => ?_⟩
  have hstored : latest.payload.get? "EDGE_SHARED_SECRET" = some edge := by
    rw [← storedObject_of_ends hends]
    exact hboth.2
  have hsame : edge = env.edgeHeader := by
    rw [Edge.Env.edgeHeader, ← Option.some.inj (hboth.1.symm.trans hworker), hheader edge hstored]
  rw [hget, hunset, Option.none_or, hstored, hsame]
  exact refused_sentOf env request path search client now

/-- A Worker that was handed the first token. -/
def tokenEnv : Edge.Env :=
  ⟨true, true, "https://backend.test", none,
    ⟨"token", List.all_iff_forall_prop.1 (by decide +kernel),
      List.all_iff_forall_prop.1 (by decide +kernel)⟩⟩

/-- The first token reaches the Worker at the second try, and a later push fails. -/
theorem worker_admitted_token : ∃ after,
    loadSecrets (Dict.empty.set "DEALFINDER_SECRETS_JSON" (payloadText firstVersion.payload)) =
        (.ok (), after) ∧
      ∀ request path search client now,
        (arrivalOf (Edge.sentOf tokenEnv request path search) client now).refused
          (after.get? "EDGE_SHARED_SECRET") = false := by
  refine worker_admitted trimEnd fresh [tokensPush, .edge none (some "not logged in")]
    [deniedPush] none none (.inl rfl) ?_ rfl ?_ firstVersion ⟨[], rfl⟩ _ (Dict.get?_set_self ..) rfl
    (fun key value hvalue => ?_) tokenEnv ?_ fun secret hsecret => ?_
  · simp only [List.cons_append, List.nil_append, List.forall_mem_cons]
    exact ⟨⟨nofun, fun _ => show "token" ≠ "" by decide⟩, nofun, nofun,
      honest_launch deniedPush (by simp [launch]), List.forall_mem_nil _⟩
  · simp only [List.forall_mem_singleton]
    exact Dict.not_mem_of_size_eq_zero rfl
  · have hall : ∀ entry ∈ firstVersion.payload.entries, '\x00' ∉ entry.2.toList := by decide
    exact hall (key, value) (Dict.get?_eq_some_iff.1 hvalue)
  · decide +kernel
  · have hstored : firstVersion.payload.get? "EDGE_SHARED_SECRET" = some "token" := rfl
    obtain rfl := Option.some.inj (hstored.symm.trans hsecret)
    decide +kernel

end DealFinder.Front
