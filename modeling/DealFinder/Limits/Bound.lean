/-
# The bound on admitted requests

As long as no cleanup evicts a client while its queue is live, its ledger stays
balanced: its queue and the list of its admitted requests have the same live
part. An admission then sees every admitted request that still counts, so the
admitted requests form an admissible list and every window holds at most
`limit` of them.

The premise cannot be dropped. A cleanup treats a client one request below its
limit as evictable, and a flood that pushes such a client out buys it a fresh
window.
-/

import DealFinder.Limits.Runs

namespace DealFinder.Limits

open DealFinder.Math SlidingWindowRateLimiter Limiter

variable {limits : Dict String (ℕ × ℚ)} {maxKeys : ℕ} {lim : Limiter}
variable {path client : String} {limit : ℕ} {window : ℚ}

/-- A client whose recorded admissions balance with its queue. -/
structure Accounted (path client : String) (limit : ℕ) (window : ℚ) (maxKeys : ℕ) (now : ℚ)
    (recorded : List ℚ) (lim : Limiter) (w : SlidingWindowRateLimiter) : Prop
    extends Serves path limit window maxKeys now lim w where
  ledger : Ledger window now recorded (w.queue (keyOf path client))
  sorted : recorded.Pairwise (· ≤ ·)
  past : ∀ t ∈ recorded, t ≤ now
  admissible : Admissible limit window recorded

theorem Accounted.mono {now later : ℚ} {recorded : List ℚ} {w : SlidingWindowRateLimiter}
    (h : Accounted path client limit window maxKeys now recorded lim w) (hle : now ≤ later) :
    Accounted path client limit window maxKeys later recorded lim w where
  toServes := h.toServes.mono hle
  ledger := h.ledger.later hle
  sorted := h.sorted
  past := fun t ht => (h.past t ht).trans hle
  admissible := h.admissible

/-- What a request adds to the admissions of a client. -/
def recordOf (path client : String) (request : Request) (answer : Answer) : Option ℚ :=
  if request.path = path ∧ request.client = client ∧ answer = .ok none then some request.now
  else none

theorem recordOf_other {request : Request} {answer : Answer}
    (hother : ¬ (request.path = path ∧ request.client = client)) :
    recordOf path client request answer = none :=
  if_neg fun h => hother ⟨h.1, h.2.1⟩

theorem recordOf_refused {request : Request} {wait : ℚ} :
    recordOf path client request (.ok (some wait)) = none :=
  if_neg fun h => by cases h.2.2

/-- A step that spares the client keeps its account. -/
theorem Accounted.step {request : Request} {recorded : List ℚ} {w : SlidingWindowRateLimiter}
    (h : Accounted path client limit window maxKeys request.now recorded lim w)
    (hwindow : 0 < window) (hspares : SparesClient path client lim request) :
    Accounted path client limit window maxKeys request.now
      (recorded ++ (recordOf path client request (machine.step lim request).1).toList)
      (machine.step lim request).2 (windowAfter path lim w request) := by
  have hserves := h.toServes.step
  by_cases hmine : request.path = path ∧ request.client = client
  · obtain ⟨hpath, rfl⟩ := hmine
    by_cases hceiling : AtCeiling lim.maxKeys (lim.lastShrink.get? path) w
        (keyOf path request.client) request.now
    · obtain ⟨hanswer, hledger⟩ := h.ledger.step_ceiling h.toServes hpath hceiling
      rw [hanswer, recordOf_refused, Option.toList_none, List.append_nil]
      exact { h with toServes := hserves, ledger := hledger }
    · by_cases hroom : (live window request.now recorded).length < limit
      · obtain ⟨hanswer, hledger⟩ :=
          h.ledger.step_room h.toServes hpath hwindow hspares hceiling hroom
        rw [hanswer, recordOf, if_pos ⟨hpath, rfl, rfl⟩, Option.toList_some]
        refine ⟨hserves, hledger, ?_, ?_, h.admissible.concat hroom⟩
        · refine List.pairwise_append.2 ⟨h.sorted, List.pairwise_singleton _ _, ?_⟩
          intro t ht s hs
          rw [List.mem_singleton.1 hs]
          exact h.past t ht
        · intro t ht
          rcases List.mem_append.1 ht with ht | ht
          · exact h.past t ht
          · exact (List.mem_singleton.1 ht).le
      · obtain ⟨oldest, rest, -, hanswer, hledger⟩ :=
          h.ledger.step_full h.toServes hpath hceiling (not_lt.1 hroom)
        rw [hanswer, recordOf_refused, Option.toList_none, List.append_nil]
        exact { h with toServes := hserves, ledger := hledger }
  · rw [recordOf_other hmine, Option.toList_none, List.append_nil]
    exact { h with
      toServes := hserves
      ledger := h.ledger.step_other h.toServes hspares hmine }

theorem admittedTimes_concat (lim : Limiter) (path client : String) (past : List Request)
    (request : Request) :
    admittedTimes lim path client (past ++ [request]) =
      admittedTimes lim path client past ++
        (recordOf path client request (machine.answerAfter lim past request)).toList :=
  machine.observe_concat _ _ _ _

/-- After a run that spares a client, the client is accounted for. -/
theorem run_accounted (hnew : Limiter.new limits maxKeys = .ok lim)
    (hpath : limits.get? path = some (limit, window)) (hwindow : 0 < window)
    (requests : List Request) (hchron : Chronological requests)
    (hspares : machine.Along (SparesClient path client) lim requests)
    {now : ℚ} (hnow : ∀ r ∈ requests, r.now ≤ now) :
    ∃ w, Accounted path client limit window maxKeys now
      (admittedTimes lim path client requests) (machine.run lim requests) w := by
  induction requests using List.reverseRecOn generalizing now with
  | nil =>
      obtain ⟨w, hserves⟩ := run_serves hnew hpath [] hchron hnow
      obtain ⟨w', hfound, -, -, hempty⟩ := new_windows hnew hpath
      obtain rfl : w = w' := Option.some.inj (hserves.found.symm.trans hfound)
      refine ⟨w, hserves, ?_, List.Pairwise.nil, by simp [admittedTimes, Machine.observe],
        admissible_nil limit window⟩
      rw [queue_of_not_mem (Dict.get?_eq_none_iff.1 (by simp [hempty]))]
      rfl
  | append_singleton past request ih =>
      obtain ⟨w, haccounted⟩ := ih hchron.left hspares.left hchron.le_last
      rw [Machine.run_concat, admittedTimes_concat]
      exact ⟨_, (haccounted.step hwindow hspares.last).mono (hnow request (by simp))⟩

/-- **The bound.** In a run in which no cleanup evicts the client while its queue
is live, at most `limit` of its requests on the path are admitted in any window
`(t - window, t]`. -/
theorem admitted_le_limit (hnew : Limiter.new limits maxKeys = .ok lim)
    (hpath : limits.get? path = some (limit, window)) (hwindow : 0 < window)
    (requests : List Request) (hchron : Chronological requests)
    (hspares : machine.Along (SparesClient path client) lim requests) (t : ℚ) :
    (within window t (admittedTimes lim path client requests)).length ≤ limit := by
  obtain ⟨now, hnow⟩ := hchron.exists_now
  obtain ⟨w, haccounted⟩ := run_accounted hnew hpath hwindow requests hchron hspares hnow
  exact haccounted.admissible.window_le haccounted.sorted t

/-! ## The premise is met, and is needed -/

/-- One client alone, cleaned up once after its window has passed. -/
def loneRun : List Request :=
  [⟨"/ask", "a", 0⟩, ⟨"/ask", "a", 1⟩, ⟨"/ask", "a", 2⟩, ⟨"/ask", "b", 61⟩, ⟨"/ask", "a", 62⟩]

theorem admitted_le_limit_loneRun :
    (within 60 2 (admittedTimes (twoAMinuteLimiter 1) "/ask" "a" loneRun)).length ≤ 2 :=
  admitted_le_limit (new_twoAMinute 1) get?_twoAMinute (by decide +kernel) loneRun
    (by decide +kernel) (by decide +kernel) 2

/-- A client spends one of its two requests. Another client's request overfills
the table, the cleanup evicts the first client, and it is given two more. -/
def floodRun : List Request :=
  [⟨"/ask", "a", 0⟩, ⟨"/ask", "b", 0⟩, ⟨"/ask", "a", 0⟩, ⟨"/ask", "a", 0⟩]

theorem flood_buys_an_admission :
    ¬ ∀ (limits : Dict String (ℕ × ℚ)) (maxKeys : ℕ) (lim : Limiter)
        (path client : String) (limit : ℕ) (window : ℚ) (requests : List Request) (t : ℚ),
      Limiter.new limits maxKeys = .ok lim → 1 ≤ maxKeys →
      limits.get? path = some (limit, window) → 0 < window → Chronological requests →
      (within window t (admittedTimes lim path client requests)).length ≤ limit := by
  intro hbound
  have hthree := hbound twoAMinute 1 (twoAMinuteLimiter 1) "/ask" "a" 2 60 floodRun 0
    (new_twoAMinute 1) le_rfl get?_twoAMinute (by decide +kernel) (by decide +kernel)
  exact absurd hthree (by decide +kernel)

end DealFinder.Limits
