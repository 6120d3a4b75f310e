/-
# The limiter refines the exact sliding window

The reference remembers every admitted request of a client on a path and looks
at nothing else. Without cleanup pressure the limiter gives the reference's
answers: its pruned, garbage-collected queue and the reference's full history
have the same live part, which is all an answer is computed from.
-/

import DealFinder.Limits.Bound

namespace DealFinder.Limits

open DealFinder.Math SlidingWindowRateLimiter Limiter

/-! ## The reference -/

namespace Reference

/-- Admit (`none`) when fewer than `limit` admitted requests lie in
`(now - window, now]`, else wait for the oldest of them to leave. -/
def answer (limit : ℕ) (window : ℚ) (admitted : List ℚ) (now : ℚ) : Option ℚ :=
  let recent := within window now admitted
  if recent.length < limit then none
  else recent.min?.map fun oldest => oldest + window - now

/-- The admitted ones among the times asked. -/
def admitted (limit : ℕ) (window : ℚ) (asked : List ℚ) : List ℚ :=
  asked.foldl (fun recorded now =>
    if answer limit window recorded now = none then recorded ++ [now] else recorded) []

/-- The reference's answer on a path, for a client that asked at the times
`asked` before. A path without a limit admits everything. -/
def check (limits : Dict String (ℕ × ℚ)) (path : String) (asked : List ℚ) (now : ℚ) :
    Option ℚ :=
  match limits.get? path with
  | none => none
  | some (limit, window) => answer limit window (admitted limit window asked) now

theorem answer_of_room {limit : ℕ} {window now : ℚ} {recorded : List ℚ}
    (hpast : ∀ t ∈ recorded, t ≤ now)
    (hroom : (live window now recorded).length < limit) :
    answer limit window recorded now = none := by
  rw [answer, within_eq_live hpast]
  exact if_pos hroom

theorem answer_of_full {limit : ℕ} {window now oldest : ℚ} {recorded rest : List ℚ}
    (hpast : ∀ t ∈ recorded, t ≤ now) (hsorted : recorded.Pairwise (· ≤ ·))
    (hlive : live window now recorded = oldest :: rest)
    (hfull : limit ≤ (live window now recorded).length) :
    answer limit window recorded now = some (oldest + window - now) := by
  have holdest : (oldest :: rest).min? = some oldest := by
    rw [List.min?_eq_some_iff]
    have hle := hsorted.sublist (hlive ▸ live_sublist window now recorded)
    refine ⟨by simp, fun t ht => ?_⟩
    cases ht with
    | head => exact le_rfl
    | tail _ ht => exact (List.pairwise_cons.1 hle).1 t ht
  rw [hlive] at hfull
  rw [answer, within_eq_live hpast]
  simp only [hlive, holdest, Option.map_some]
  exact if_neg (not_lt.2 hfull)

theorem admitted_concat (limit : ℕ) (window : ℚ) (asked : List ℚ) (now : ℚ) :
    admitted limit window (asked ++ [now]) =
      if answer limit window (admitted limit window asked) now = none
      then admitted limit window asked ++ [now] else admitted limit window asked := by
  rw [admitted, List.foldl_append]
  rfl

end Reference

/-! ## The simulation -/

variable {limits : Dict String (ℕ × ℚ)} {maxKeys : ℕ} {lim : Limiter}
variable {path client : String} {limit : ℕ} {window : ℚ}

/-- A request on `path` meets no ceiling, and the cleanup it runs, if any, finds
no more clients that are not idle than a cleanup aims at. -/
def CalmOn (path : String) (lim : Limiter) (request : Request) : Prop :=
  request.path = path → ¬ CeilingAt lim request ∧
    ∀ w ∈ lim.windows.get? path,
      ∀ table ∈ cleanupTable lim.maxKeys (lim.lastShrink.get? path) w
        (keyOf path request.client) request.now,
        (table.nonIdle request.now).size ≤ cleanupTarget lim.maxKeys

instance (path : String) (lim : Limiter) (request : Request) :
    Decidable (CalmOn path lim request) :=
  inferInstanceAs (Decidable (_ → _))

/-- A cleanup without excess evicts nobody. -/
theorem CalmOn.spares {request : Request} (h : CalmOn path lim request) (client : String) :
    SparesClient path client lim request := by
  intro hpath w hw table htable hevicts
  obtain ⟨ev, last, -, -, -, -, hrank⟩ := hevicts
  have hsize := (h hpath).2 w hw table htable
  rw [excess] at hrank
  omega

/-- The client's own request is answered as the reference answers it. -/
theorem Accounted.answer {request : Request} {recorded : List ℚ} {w : SlidingWindowRateLimiter}
    (h : Accounted path request.client limit window maxKeys request.now recorded lim w)
    (hpath : request.path = path) (hwindow : 0 < window) (hcalm : CalmOn path lim request) :
    (machine.step lim request).1 = .ok (Reference.answer limit window recorded request.now) := by
  have hbelow : ¬ AtCeiling lim.maxKeys (lim.lastShrink.get? path) w
      (keyOf path request.client) request.now := by
    subst hpath
    exact fun hat => (hcalm rfl).1 ⟨w, h.found, hat⟩
  by_cases hroom : (live window request.now recorded).length < limit
  · rw [Reference.answer_of_room h.past hroom]
    exact (h.ledger.step_room h.toServes hpath hwindow (hcalm.spares _) hbelow hroom).1
  · obtain ⟨oldest, rest, hlive, hanswer, -⟩ :=
      h.ledger.step_full h.toServes hpath hbelow (not_lt.1 hroom)
    rw [Reference.answer_of_full h.past h.sorted hlive (not_lt.1 hroom)]
    exact hanswer

theorem askedBy_concat (path client : String) (past : List Request) (request : Request) :
    askedBy path client (past ++ [request]) =
      askedBy path client past ++
        if request.path = path ∧ request.client = client then [request.now] else [] := by
  by_cases hmine : request.path = path ∧ request.client = client
  · simp [askedBy, List.filter_append, hmine]
  · simp [askedBy, List.filter_append, hmine]

/-- Along a calm run the limiter and the reference admit the same requests. -/
theorem admittedTimes_eq (hnew : Limiter.new limits maxKeys = .ok lim)
    (hpath : limits.get? path = some (limit, window)) (hwindow : 0 < window)
    (client : String) (requests : List Request) (hchron : Chronological requests)
    (hcalm : machine.Along (CalmOn path) lim requests) :
    admittedTimes lim path client requests =
      Reference.admitted limit window (askedBy path client requests) := by
  induction requests using List.reverseRecOn with
  | nil => rfl
  | append_singleton past request ih =>
      have hpast := ih hchron.left hcalm.left
      rw [admittedTimes_concat, askedBy_concat]
      by_cases hmine : request.path = path ∧ request.client = client
      · obtain ⟨hrequest, rfl⟩ := hmine
        obtain ⟨w, haccounted⟩ := run_accounted hnew hpath hwindow past hchron.left
          (hcalm.left.mono fun s r h => h.spares _) hchron.le_last
        have hanswer := haccounted.answer hrequest hwindow hcalm.last
        rw [Machine.answerAfter, hanswer, if_pos ⟨hrequest, rfl⟩, Reference.admitted_concat,
          ← hpast, recordOf]
        cases Reference.answer limit window
          (admittedTimes lim path request.client past) request.now with
        | none => simp [hrequest]
        | some wait => simp
      · rw [recordOf_other hmine, if_neg hmine, hpast, Option.toList_none, List.append_nil,
          List.append_nil]

/-- **The refinement.** In a run that is calm on the path of its last request,
that request is answered as the reference answers it, from the times the same
client asked on the same path before. -/
theorem answer_eq_reference (hnew : Limiter.new limits maxKeys = .ok lim)
    (hlimits : ∀ path limit window, limits.get? path = some (limit, window) → 0 < window)
    (past : List Request) (request : Request) (hchron : Chronological (past ++ [request]))
    (hcalm : machine.Along (CalmOn request.path) lim (past ++ [request])) :
    machine.answerAfter lim past request =
      .ok (Reference.check limits request.path
        (askedBy request.path request.client past) request.now) := by
  unfold Reference.check
  cases hpath : limits.get? request.path with
  | none =>
      have hsame := check_of_windows_none (run_windows_none hnew hpath past) request.client
        request.now
      exact congrArg Prod.fst hsame
  | some entry =>
      obtain ⟨limit, window⟩ := entry
      have hwindow := hlimits _ _ _ hpath
      obtain ⟨w, haccounted⟩ := run_accounted hnew hpath hwindow past hchron.left
        (hcalm.left.mono fun s r h => h.spares request.client) hchron.le_last
      have hanswer := haccounted.answer rfl hwindow hcalm.last
      rwa [admittedTimes_eq hnew hpath hwindow request.client past hchron.left hcalm.left]
        at hanswer

/-- Three clients overfill a table for two; the cleanup finds one that is not
idle, and the client it forgets is answered from its history all the same. -/
def calmRun : List Request :=
  [⟨"/ask", "a", 0⟩, ⟨"/ask", "a", 1⟩, ⟨"/ask", "b", 1⟩, ⟨"/ask", "c", 62⟩, ⟨"/ask", "a", 63⟩]

theorem answer_eq_reference_calmRun :
    machine.answerAfter (twoAMinuteLimiter 2) calmRun ⟨"/ask", "a", 64⟩ =
      .ok (Reference.check twoAMinute "/ask" (askedBy "/ask" "a" calmRun) 64) :=
  answer_eq_reference (new_twoAMinute 2)
    (fun path limit window hpath => by
      have hmem := Dict.get?_eq_some_iff.1 hpath
      rw [show twoAMinute.entries = [("/ask", 2, 60)] from rfl, List.mem_singleton] at hmem
      cases hmem
      decide +kernel)
    calmRun ⟨"/ask", "a", 64⟩ (by decide +kernel) (by decide +kernel)

end DealFinder.Limits
