/-
# The circuit breaker

A source that fails or misses its deadline is benched for `COOLDOWN_SECONDS`. The
table of benched sources outlives a call of `aggregate`: each call takes a snapshot
of it first, and benches the sources that let it down.
-/

import DealFinder.Math.Machine
import DealFinder.Shop.Calls
import DealFinder.Shop.Search

namespace DealFinder.Shop

open DealFinder.Math

/-! ## The table of benched sources -/

/-- `_cooldown`: the time each benched source is benched until. -/
abbrev Cooldown := Dict String ℚ

/-- `_benched`, at a reading of the clock. -/
def isBenched (cooldown : Cooldown) (now : ℚ) (name : String) : Bool :=
  now < cooldown.getD name 0

/-- `_bench`, at a reading of the clock. -/
def bench (cooldownSeconds now : ℚ) (cooldown : Cooldown) (name : String) : Cooldown :=
  cooldown.set name (now + cooldownSeconds)

/-- A call of `aggregate`, with its readings of the clock. -/
structure Call where
  query : String
  sources : List Source
  limit : ℕ
  target : ℤ
  /-- When the call tests whether a name is benched. -/
  tested : String → ℚ
  /-- When the call benches a name. -/
  benched : String → ℚ
  distinct : (sources.map Source.name).Nodup
  ordered : ∀ name other, tested name ≤ benched other

/-- The snapshot of the table that a call starts from. -/
def Call.settings (call : Call) (cooldown : Cooldown) : Settings :=
  ⟨call.limit, call.target, fun name => isBenched cooldown (call.tested name) name⟩

/-- The calls of a process, one after the other. -/
def breaker (services : Services) (cooldownSeconds : ℚ) : Machine Cooldown Call Aggregated where
  step cooldown call :=
    let result := (aggregate services (call.settings cooldown) call.query call.sources).1
    (result, result.throttled.foldl
      (fun cooldown name => bench cooldownSeconds (call.benched name) cooldown name) cooldown)

/-- The clock never goes back. -/
def InOrder (calls : List Call) : Prop :=
  calls.Pairwise fun earlier later => ∀ name other, earlier.benched name ≤ later.tested other

theorem getD_bench (cooldownSeconds : ℚ) (call : Call) (names : List String) (cooldown : Cooldown)
    (name : String) :
    (names.foldl (fun cooldown name => bench cooldownSeconds (call.benched name) cooldown name)
        cooldown).getD name 0 =
      if name ∈ names then call.benched name + cooldownSeconds else cooldown.getD name 0 := by
  induction names generalizing cooldown with
  | nil => simp
  | cons next rest ih =>
      rw [List.foldl_cons, ih]
      by_cases hrest : name ∈ rest
      · simp [hrest]
      · by_cases hname : name = next
        · subst hname
          simp [hrest, bench, Dict.getD]
        · simp [hrest, hname, bench, Dict.getD, Dict.get?_set_of_ne]

section Breaker

variable {services : Services} {cooldownSeconds : ℚ}

/-- A step benches the names throttled and leaves the others alone. -/
theorem getD_step (cooldown : Cooldown) (call : Call) (name : String) :
    ((breaker services cooldownSeconds).step cooldown call).2.getD name 0 =
      if name ∈ ((breaker services cooldownSeconds).step cooldown call).1.throttled then
        call.benched name + cooldownSeconds
      else cooldown.getD name 0 := getD_bench ..

/-- A benched source stays benched at least as long, whatever calls come next. -/
theorem le_getD_run {cooldown : Cooldown} {name : String} {moment : ℚ}
    (hbenched : moment ≤ cooldown.getD name 0) (calls : List Call)
    (hlater : ∀ call ∈ calls, moment ≤ call.benched name + cooldownSeconds) :
    moment ≤ ((breaker services cooldownSeconds).run cooldown calls).getD name 0 := by
  induction calls generalizing cooldown with
  | nil => exact hbenched
  | cons call rest ih =>
      rw [Machine.run_cons]
      refine ih ?_ fun call hcall => hlater call (List.mem_cons_of_mem _ hcall)
      rw [getD_step]
      split_ifs
      · exact hlater call List.mem_cons_self
      · exact hbenched

/-- A name that no call of a run throttles stays as it is. -/
theorem getD_run_of_not_throttled {cooldown : Cooldown} {name : String} (calls : List Call)
    (hspared : ∀ first call rest, calls = first ++ call :: rest →
      name ∉ ((breaker services cooldownSeconds).answerAfter cooldown first call).throttled) :
    ((breaker services cooldownSeconds).run cooldown calls).getD name 0 =
      cooldown.getD name 0 := by
  induction calls generalizing cooldown with
  | nil => rfl
  | cons call rest ih =>
      rw [Machine.run_cons, ih]
      · rw [getD_step]
        exact if_neg (hspared [] call rest rfl)
      · intro first next tail hsplit
        exact hspared (call :: first) next tail (by rw [hsplit]; rfl)

end Breaker

/-! ## Runs -/

section Runs

variable (services : Services) (cooldownSeconds : ℚ)

/-- The snapshot a call takes after some calls. -/
def snapshot (past : List Call) (call : Call) : Settings :=
  call.settings ((breaker services cooldownSeconds).run Dict.empty past)

/-- The sources a call calls after some calls. -/
def calledBy (past : List Call) (call : Call) : List Source :=
  called services (snapshot services cooldownSeconds past call) call.query call.sources

/-- A call, after some calls, gets as far as a source. -/
def ReachedBy (past : List Call) (call : Call) (s : Source) : Prop :=
  Reaches services (snapshot services cooldownSeconds past call) call.query call.sources s

/-- What a call, after some calls, accounts for: each configured source has exactly
one fate, what timed out is throttled, and no source is called twice. -/
structure Accounted (past : List Call) (call : Call) : Prop where
  fates : ∀ s ∈ call.sources, s.available = true →
    ∃! fate, HasFate services (snapshot services cooldownSeconds past call) call.query
      call.sources s fate
  timedOut : ((breaker services cooldownSeconds).answerAfter Dict.empty past call).timedOut ⊆
    ((breaker services cooldownSeconds).answerAfter Dict.empty past call).throttled
  once : ((calledBy services cooldownSeconds past call).map Source.name).Nodup

/-- A name benched by `call` is not called before its cooldown ends, and the first
call after it that gets as far as a source of the name calls it. -/
structure Rested (past : List Call) (call : Call) (mid : List Call) (later : Call)
    (name : String) : Prop where
  rests : ∀ s ∈ calledBy services cooldownSeconds (past ++ call :: mid) later, s.name = name →
    call.benched name + cooldownSeconds ≤ later.tested name
  returns : call.benched name + cooldownSeconds ≤ later.tested name →
    (∀ first between rest, mid = first ++ between :: rest →
      call.benched name + cooldownSeconds ≤ between.tested name →
        ∀ s ∈ between.sources, s.available = true → s.name = name →
          ¬ ReachedBy services cooldownSeconds (past ++ call :: first) between s) →
      ∀ s ∈ later.sources, s.available = true → s.name = name →
        ReachedBy services cooldownSeconds (past ++ call :: mid) later s →
          s ∈ calledBy services cooldownSeconds (past ++ call :: mid) later

end Runs

section Runs

variable {services : Services} {cooldownSeconds : ℚ} {past mid : List Call} {call later : Call}

theorem mem_calledBy_iff {s : Source} :
    s ∈ calledBy services cooldownSeconds past call ↔
      s ∈ call.sources ∧ s.available = true ∧
        ((breaker services cooldownSeconds).run Dict.empty past).getD s.name 0 ≤
          call.tested s.name ∧
        ReachedBy services cooldownSeconds past call s := by
  unfold calledBy
  rw [mem_called_iff, mem_usable, and_assoc, and_assoc]
  refine and_congr_right fun hs => and_congr_right fun havailable => and_congr_left fun _ => ?_
  have hbenched : s.name ∈ benchedNames (snapshot services cooldownSeconds past call)
      call.sources ↔
        isBenched ((breaker services cooldownSeconds).run Dict.empty past) (call.tested s.name)
          s.name = true := by
    unfold benchedNames
    rw [List.mem_map]
    constructor
    · rintro ⟨s', hs', hname⟩
      rw [← hname]
      exact (List.mem_filter.1 hs').2
    · intro h
      exact ⟨s, List.mem_filter.2 ⟨List.mem_filter.2 ⟨hs, havailable⟩, h⟩, rfl⟩
  rw [hbenched, isBenched, decide_eq_true_eq, not_lt]

/-- What a call benches, at the end of the call. -/
theorem getD_benched {s : Source} (hs : s ∈ calledBy services cooldownSeconds past call)
    (hfails : fails call.query s = true) :
    ((breaker services cooldownSeconds).run Dict.empty (past ++ [call])).getD s.name 0 =
      call.benched s.name + cooldownSeconds := by
  rw [Machine.run_concat, getD_step]
  apply if_pos
  show s.name ∈ (aggregate services (snapshot services cooldownSeconds past call) call.query
    call.sources).1.throttled
  rw [aggregate_throttled]
  exact List.mem_map_of_mem (List.mem_filter.2 ⟨hs, hfails⟩)

/-- Readings of later calls. -/
theorem InOrder.le_benched (hclock : InOrder (past ++ call :: mid)) (name : String) :
    ∀ between ∈ mid, call.benched name ≤ between.benched name := by
  intro between hbetween
  have hafter := (List.pairwise_cons.1 (List.pairwise_append.1 hclock).2.1).1 between hbetween
  exact (hafter name name).trans (between.ordered name name)

theorem run_split : (breaker services cooldownSeconds).run Dict.empty (past ++ call :: mid) =
    (breaker services cooldownSeconds).run
      ((breaker services cooldownSeconds).run Dict.empty (past ++ [call])) mid := by
  rw [← Machine.run_append, List.append_assoc]
  rfl

/-- A benched source is not called before its cooldown ends. -/
theorem rests_of_fails {s : Source} (hclock : InOrder (past ++ call :: mid))
    (hs : s ∈ calledBy services cooldownSeconds past call) (hfails : fails call.query s = true)
    {s' : Source} (hs' : s' ∈ calledBy services cooldownSeconds (past ++ call :: mid) later)
    (hname : s'.name = s.name) :
    call.benched s.name + cooldownSeconds ≤ later.tested s.name := by
  obtain ⟨-, -, hfree, -⟩ := mem_calledBy_iff.1 hs'
  rw [hname, run_split] at hfree
  refine le_trans (le_getD_run (getD_benched hs hfails).ge mid ?_) hfree
  intro between hbetween
  exact add_le_add_left (hclock.le_benched s.name between hbetween) _

/-- A benched source that nothing reaches in the meantime is called again. -/
theorem rested_of_fails {s : Source} (hclock : InOrder (past ++ call :: mid))
    (hs : s ∈ calledBy services cooldownSeconds past call) (hfails : fails call.query s = true) :
    Rested services cooldownSeconds past call mid later s.name := by
  constructor
  · exact fun s' hs' hname => rests_of_fails hclock hs hfails hs' hname
  · intro hover hfirst s' hs' havailable hname hreached
    refine mem_calledBy_iff.2 ⟨hs', havailable, ?_, hreached⟩
    rw [hname, run_split, getD_run_of_not_throttled, getD_benched hs hfails]
    · exact hover
    · rintro first between rest rfl hthrottled
      have hbetween : s.name ∈ (aggregate services (snapshot services cooldownSeconds
          (past ++ call :: first) between) between.query between.sources).1.throttled := by
        unfold snapshot
        rw [run_split]
        exact hthrottled
      rw [aggregate_throttled] at hbetween
      obtain ⟨again, hagain, hsame⟩ := List.mem_map.1 hbetween
      have hcalled : again ∈ calledBy services cooldownSeconds (past ++ call :: first) between :=
        (List.mem_filter.1 hagain).1
      have hearly : InOrder (past ++ call :: first) := by
        unfold InOrder at hclock ⊢
        exact hclock.sublist (by simp)
      have hlate := rests_of_fails hearly hs hfails hcalled hsame
      obtain ⟨hmem, hfree, -, hreaches⟩ := mem_calledBy_iff.1 hcalled
      exact hfirst first between rest rfl hlate again hmem hfree hsame hreaches

/-- **The circuit breaker.** In every run on a clock that never goes back, a call
accounts for all its sources; and a source that fails in it rests for the cooldown,
then is called by the first call that gets as far as it. -/
theorem breaker_accounts (services : Services) (cooldownSeconds : ℚ) (past : List Call)
    (call : Call) (mid : List Call) (later : Call)
    (hclock : InOrder (past ++ call :: (mid ++ [later]))) :
    Accounted services cooldownSeconds past call ∧
      ∀ s ∈ calledBy services cooldownSeconds past call, fails call.query s = true →
        Rested services cooldownSeconds past call mid later s.name := by
  constructor
  · constructor
    · exact fun s hs havailable => existsUnique_fate call.distinct hs havailable
    · exact timedOut_subset_throttled
    · exact nodup_namesCalled call.distinct
  · intro s hs hfails
    have hearly : InOrder (past ++ call :: mid) := by
      unfold InOrder at hclock ⊢
      exact hclock.sublist (by simp)
    exact rested_of_fails hearly hs hfails

end Runs

/-- A store of the first tier that does not answer. -/
def down (name : String) : Source := ⟨name, true, some 1, none, fun _ => .failed⟩

/-- A call with one source, at one reading of the clock. -/
def callOne (time : ℚ) (src : Source) : Call where
  query := "q"
  sources := [src]
  limit := 24
  target := 12
  tested := fun _ => time
  benched := fun _ => time
  distinct := List.nodup_singleton _
  ordered := fun _ _ => le_rfl

/-- Best Buy is down at 0, left alone at 60 and asked again at 90. -/
theorem breaker_accounts_outage :
    Rested plainServices 90 [] (callOne 0 (down "BestBuy")) [callOne 60 (down "BestBuy")]
      (callOne 90 (down "BestBuy")) "BestBuy" := by
  have hclock : InOrder ([] ++ callOne 0 (down "BestBuy") ::
      ([callOne 60 (down "BestBuy")] ++ [callOne 90 (down "BestBuy")])) := by
    norm_num [InOrder, callOne]
  have hcalled : down "BestBuy" ∈ calledBy plainServices 90 [] (callOne 0 (down "BestBuy")) := by
    refine mem_calledBy_iff.2 ⟨List.mem_singleton_self _, rfl, le_rfl, ?_⟩
    rintro ⟨before, tier, after, hsplit, hlt, -⟩
    have htier : tier ∈ [(1 : ℤ)] := by
      rw [show [(1 : ℤ)] = before ++ tier :: after from hsplit]
      simp
    rw [List.mem_singleton.1 htier] at hlt
    exact lt_irrefl _ hlt
  exact (breaker_accounts plainServices 90 [] (callOne 0 (down "BestBuy"))
    [callOne 60 (down "BestBuy")] (callOne 90 (down "BestBuy")) hclock).2 (down "BestBuy")
      hcalled rfl

end DealFinder.Shop
