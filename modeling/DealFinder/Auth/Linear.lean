/-
# Every answer reflects a moment of its call

`key_for` reads the cache several times without holding the lock. Its answers
are nevertheless justified by what the cache held at some moment between the
call and the answer (`DuringCall`), with one exception. A call that finds the
cache empty keeps no key in hand; when another thread then fills the cache before
the freshness test, the set looks just fetched and the call answers 401 although
the set has its kid. `SeesFill` says of a step that it is not that one.
-/

import DealFinder.Auth.Threads

namespace DealFinder.Auth.Threads

open DealFinder.Math

universe u v

variable {Key : Type u} {τ : Type v}

/-- The kid a thread is answering for. -/
def Pc.kid : Pc Key → Option (Option String)
  | .idle => none
  | .called kid | .looked kid _ | .stale kid _ | .queued kid _ | .locked kid _ | .sending kid _
  | .inFlight kid _ | .failing kid _ _ | .raising kid _ _ | .received kid _ _ | .stamping kid _
  | .releasing kid | .released kid => some kid

/-- The set that the first lookup of a call read, while the call may still use it. -/
def Pc.read : Pc Key → Option (Option (KeySet Key))
  | .looked _ read | .stale _ read | .queued _ read | .locked _ read | .sending _ read
  | .inFlight _ read | .failing _ read _ | .raising _ read _ => some read
  | _ => none

/-- The call has seen the cache filled. -/
def Pc.settled : Pc Key → Bool
  | .stamping .. | .releasing .. | .released .. => true
  | _ => false

/-! ## What a step reads -/

section Taken

variable {cache : Jwks Key} {lock : Option τ} {thread : τ} {now : ℚ}
variable {action : Action Key} {pc : Pc Key} {t : Turn Key τ}

/-- A thread ends its call, begins one, or goes on with it, and reads the set
only in its first lookup. -/
theorem Taken.kid_cases (h : Taken cache lock thread now action pc t) :
    t.pc = .idle ∨
      (∃ kid, pc = .idle ∧ action = .call kid ∧ t.pc = .called kid) ∨
      (t.pc.kid = pc.kid ∧
        (t.pc.read = none ∨ t.pc.read = pc.read ∨ t.pc.read = some cache.keys)) := by
  cases h with
  | call kid => exact Or.inr (Or.inl ⟨kid, rfl, rfl, rfl⟩)
  | lookup kid => exact Or.inr (Or.inr ⟨rfl, Or.inr (Or.inr rfl)⟩)
  | refreshed kid read hneeds => exact Or.inr (Or.inr ⟨rfl, Or.inl rfl⟩)
  | replyOk kid read keys => exact Or.inr (Or.inr ⟨rfl, Or.inl rfl⟩)
  | fresh kid read hneeds => exact Or.inl rfl
  | backoff kid read hbackoff => exact Or.inl rfl
  | timeout kid read => exact Or.inl rfl
  | raise kid read exc => exact Or.inl rfl
  | answer kid => exact Or.inl rfl
  | _ => exact Or.inr (Or.inr ⟨rfl, Or.inr (Or.inl rfl)⟩)

/-- The cache is never emptied. -/
theorem Taken.keys_isSome (h : Taken cache lock thread now action pc t)
    (hkeys : cache.keys.isSome = true) : t.cache.keys.isSome = true := by
  cases h with
  | setKeys kid keys time => rfl
  | _ => exact hkeys

/-- A fetch time is entered only by a call that has filled the cache. -/
theorem Taken.fetchedAt_isSome (h : Taken cache lock thread now action pc t)
    (hfetched : t.cache.fetchedAt.isSome = true) :
    cache.fetchedAt.isSome = true ∨ pc.settled = true := by
  cases h with
  | setFetchedAt kid time => exact Or.inr rfl
  | _ => exact Or.inl hfetched

/-- A call that needs no fetch has seen a fetch. -/
theorem fetchedAt_isSome_of_needsFetch {kid : Option String}
    (hneeds : cache.needsFetch kid now = false) : cache.fetchedAt.isSome = true := by
  cases hfetched : cache.fetchedAt with
  | none => simp [Jwks.needsFetch, hfetched, elapsed] at hneeds
  | some last => rfl

/-- A call settles once the cache was filled. -/
theorem Taken.settled_cases (h : Taken cache lock thread now action pc t)
    (hsettled : t.pc.settled = true) :
    t.cache.keys.isSome = true ∨ cache.fetchedAt.isSome = true ∨ pc.settled = true := by
  cases h with
  | refreshed kid read hneeds =>
      exact Or.inr (Or.inl (fetchedAt_isSome_of_needsFetch hneeds))
  | setKeys kid keys time => exact Or.inl rfl
  | setFetchedAt kid time => exact Or.inr (Or.inr rfl)
  | release kid => exact Or.inr (Or.inr rfl)
  | _ => cases hsettled

end Taken

/-- A cache with a fetch time, or with a settled call, has keys. -/
structure Filled (s : State Key τ) : Prop where
  fetched : s.cache.fetchedAt.isSome = true → s.cache.keys.isSome = true
  settled : ∀ thread, (s.pc thread).settled = true → s.cache.keys.isSome = true

/-- There is a cached set, and `found` is what it has for the kid. -/
def Cached (kid : Option String) (found : Option Key) (s : State Key τ) : Prop :=
  ∃ keys, s.cache.keys = some keys ∧ keys kid = found

theorem cached_iff {kid : Option String} {found : Option Key} {s : State Key τ} :
    Cached kid found s ↔ (s.cache.keys.map fun keys => keys kid) = some found := by
  rw [Option.map_eq_some_iff]
  rfl

variable [DecidableEq τ]

theorem Filled.step {s : State Key τ} (h : Filled s) (e : Event Key τ) :
    Filled (machine.step s e).2 := by
  rcases step_cases s e with hsame | ⟨t, htaken, hstep⟩
  · rwa [hsame]
  · rw [hstep]
    refine ⟨fun hfetched => ?_, fun thread hsettled => ?_⟩
    · cases htaken.fetchedAt_isSome hfetched with
      | inl hold => exact htaken.keys_isSome (h.fetched hold)
      | inr hown => exact htaken.keys_isSome (h.settled e.thread hown)
    · by_cases heq : thread = e.thread
      · subst heq
        rw [after_pc_self] at hsettled
        rcases htaken.settled_cases hsettled with hkeys | hfetched | hown
        · exact hkeys
        · exact htaken.keys_isSome (h.fetched hfetched)
        · exact htaken.keys_isSome (h.settled e.thread hown)
      · rw [after_pc_other heq] at hsettled
        exact htaken.keys_isSome (h.settled thread hsettled)

theorem run_filled (events : List (Event Key τ)) :
    Filled (machine.run (init : State Key τ) events) := by
  have hinit : Filled (init : State Key τ) := ⟨id, fun thread hsettled => by cases hsettled⟩
  exact Machine.run_history (P := fun _ s => Filled s) hinit
    (fun past e hpast => hpast.step e) events

/-! ## Moments of a call -/

/-- `thread` has been in a call for `kid` ever since an event of `events` began
it, and `P` held at some moment since. -/
def DuringCall (events : List (Event Key τ)) (thread : τ) (kid : Option String)
    (P : State Key τ → Prop) : Prop :=
  ∃ before time during, events = before ++ ⟨thread, time, .call kid⟩ :: during ∧
    (machine.run init before).pc thread = .idle ∧
    (∀ first second, during = first ++ second →
      (machine.run init (before ++ ⟨thread, time, .call kid⟩ :: first)).pc thread ≠ .idle) ∧
    ∃ first second, during = first ++ second ∧
      P (machine.run init (before ++ ⟨thread, time, .call kid⟩ :: first))

section DuringCall

variable {past : List (Event Key τ)} {thread : τ} {kid : Option String}
variable {P Q : State Key τ → Prop}

theorem DuringCall.mono (h : DuringCall past thread kid P) (himp : ∀ s, P s → Q s) :
    DuringCall past thread kid Q := by
  obtain ⟨before, time, during, hpast, hidle, hbusy, first, second, hsplit, hmoment⟩ := h
  exact ⟨before, time, during, hpast, hidle, hbusy, first, second, hsplit, himp _ hmoment⟩

/-- The present is a moment of the call. -/
theorem DuringCall.present (h : DuringCall past thread kid P)
    (hpresent : Q (machine.run init past)) : DuringCall past thread kid Q := by
  obtain ⟨before, time, during, rfl, hidle, hbusy, -⟩ := h
  exact ⟨before, time, during, rfl, hidle, hbusy, during, [], by simp, hpresent⟩

/-- A call that a step does not end goes on. -/
theorem DuringCall.concat (h : DuringCall past thread kid P) {e : Event Key τ}
    (hbusy' : (machine.run init (past ++ [e])).pc thread ≠ .idle) :
    DuringCall (past ++ [e]) thread kid P := by
  obtain ⟨before, time, during, rfl, hidle, hbusy, first, second, rfl, hmoment⟩ := h
  refine ⟨before, time, first ++ second ++ [e], by simp, hidle, ?_,
    first, second ++ [e], by simp, hmoment⟩
  intro early late hsplit
  rcases List.eq_nil_or_concat' late with rfl | ⟨init, last, rfl⟩
  · rw [List.append_nil] at hsplit
    rw [← hsplit]
    simpa using hbusy'
  · rw [← List.append_assoc] at hsplit
    exact hbusy early init (List.append_inj' hsplit rfl).1

theorem step_call {s : State Key τ} (hidle : s.pc thread = .idle) (time : ℚ) :
    (machine.step s ⟨thread, time, .call kid⟩).2.pc thread = .called kid := by
  have hturn : turn s.cache s.lock thread time (.call kid) (s.pc thread) =
      some ⟨.called kid, s.cache, s.lock, .silent⟩ := by
    rw [hidle]
    rfl
  rw [step_of_turn hturn]
  exact after_pc_self

/-- A call begins. -/
theorem DuringCall.begin {time : ℚ} (hidle : (machine.run init past).pc thread = .idle) :
    DuringCall (past ++ [⟨thread, time, .call kid⟩]) thread kid fun _ => True := by
  refine ⟨past, time, [], rfl, hidle, ?_, [], [], rfl, trivial⟩
  intro first second hsplit
  obtain ⟨rfl, rfl⟩ := List.append_eq_nil_iff.1 hsplit.symm
  rw [Machine.run_concat, step_call hidle]
  intro hcalled
  cases hcalled

end DuringCall

/-- Every thread in a call still holds what the cache held at a moment of it. -/
def Tracks (past : List (Event Key τ)) (s : State Key τ) : Prop :=
  ∀ thread kid, (s.pc thread).kid = some kid →
    DuringCall past thread kid fun moment =>
      ∀ read, (s.pc thread).read = some read → moment.cache.keys = read

theorem Pc.ne_idle_of_kid {pc : Pc Key} {kid : Option String} (h : pc.kid = some kid) :
    pc ≠ .idle := by
  intro hidle
  subst hidle
  cases h

/-- The steps of a thread, and of the others, keep track. -/
theorem Tracks.step {past : List (Event Key τ)} (h : Tracks past (machine.run init past))
    (e : Event Key τ) :
    Tracks (past ++ [e]) (machine.run init (past ++ [e])) := by
  intro thread kid hkid
  have hbusy := Pc.ne_idle_of_kid hkid
  rcases step_cases (machine.run init past) e with hsame | ⟨t, htaken, hstep⟩
  · have hrun : machine.run init (past ++ [e]) = machine.run init past := by
      rw [Machine.run_concat, hsame]
    rw [hrun] at hkid ⊢
    exact (h thread kid hkid).concat hbusy
  · have hrun : machine.run init (past ++ [e]) = after (machine.run init past) e t := by
      rw [Machine.run_concat, hstep]
    by_cases heq : thread = e.thread
    · subst heq
      have hpc : (machine.run init (past ++ [e])).pc e.thread = t.pc := by
        rw [hrun]
        exact after_pc_self
      rw [hpc] at hkid ⊢
      rcases htaken.kid_cases with hended | ⟨kid', hidle, haction, hcalled⟩ |
        ⟨hsame, hread⟩
      · rw [hended] at hkid
        cases hkid
      · obtain ⟨own, time, action⟩ := e
        simp only at haction hidle
        subst haction
        rw [hcalled] at hkid ⊢
        obtain rfl := Option.some.inj hkid
        exact (DuringCall.begin hidle).mono fun _ _ read hread => by cases hread
      · have hpast := h e.thread kid (hsame ▸ hkid)
        rcases hread with hread | hread | hread
        · exact (hpast.concat hbusy).mono fun _ _ read hr => by
            rw [hread] at hr
            cases hr
        · rw [hread]
          exact hpast.concat hbusy
        · -- The first lookup: the moment is the present.
          refine (hpast.present ?_).concat hbusy
          intro read hr
          rw [hread] at hr
          exact Option.some.inj hr
    · have hpc :
          (machine.run init (past ++ [e])).pc thread = (machine.run init past).pc thread := by
        rw [hrun]
        exact after_pc_other heq
      rw [hpc] at hkid ⊢
      exact (h thread kid hkid).concat hbusy

theorem run_tracks (events : List (Event Key τ)) :
    Tracks events (machine.run (init : State Key τ) events) := by
  induction events using List.reverseRecOn with
  | nil =>
      intro thread kid hkid
      cases hkid
  | append_singleton past e ih => exact ih.step e

/-! ## Answers -/

/-- The step that mistakes a cache filled behind its back: the call found the
cache empty, and now needs no fetch although the set has its kid. -/
def misreadsFill (s : State Key τ) (e : Event Key τ) : Bool :=
  match s.pc e.thread, e.action with
  | .looked kid none, .next => !s.cache.needsFetch kid e.time && (s.cache.lookup kid).isSome
  | _, _ => false

/-- The step does not mistake a cache filled behind its back. -/
def SeesFill (s : State Key τ) (e : Event Key τ) : Prop := misreadsFill s e = false

instance (s : State Key τ) (e : Event Key τ) : Decidable (SeesFill s e) :=
  inferInstanceAs (Decidable (_ = _))

/-- What justifies an answer to a thread after the events so far. -/
def Reflects (past : List (Event Key τ)) (thread : τ) : Answer Key → Prop
  | .key key => ∃ kid, DuringCall past thread kid (Cached kid (some key))
  | .invalidKey kid => DuringCall past thread kid (Cached kid none)
  | .unavailable _ => True

section Answers

variable {past : List (Event Key τ)} {e : Event Key τ} {kid : Option String}
variable {read : Option (KeySet Key)}

/-- The set read by the first lookup of a call was cached at a moment of it. -/
theorem duringCall_read (hkid : ((machine.run init past).pc e.thread).kid = some kid)
    (hread : ((machine.run init past).pc e.thread).read = some read) :
    DuringCall past e.thread kid fun moment => moment.cache.keys = read :=
  (run_tracks past e.thread kid hkid).mono fun _ hmoment => hmoment read hread

/-- A 503, or the key in hand, reflects the first lookup. -/
theorem reflects_orUnavailable (hkid : ((machine.run init past).pc e.thread).kid = some kid)
    (hread : ((machine.run init past).pc e.thread).read = some read) (reason : String) :
    Reflects past e.thread (.orUnavailable (held kid read) reason) := by
  have hmoment := duringCall_read hkid hread
  cases hheld : held kid read with
  | none => trivial
  | some key =>
      obtain ⟨keys, hkeys, hkey⟩ := Option.bind_eq_some_iff.1 hheld
      refine ⟨kid, hmoment.mono fun s hs => ⟨keys, hs.trans hkeys, hkey⟩⟩

/-- A filled cache justifies what its lookup finds now. -/
theorem reflects_present (hkid : ((machine.run init past).pc e.thread).kid = some kid)
    (hfilled : (machine.run init past).cache.keys.isSome = true) :
    Reflects past e.thread (.orInvalid ((machine.run init past).cache.lookup kid) kid) := by
  obtain ⟨keys, hkeys⟩ := Option.isSome_iff_exists.1 hfilled
  have hpresent := (run_tracks past e.thread kid hkid).present
    (Q := Cached kid (keys kid)) ⟨keys, hkeys, rfl⟩
  rw [Jwks.lookup, hkeys, Option.bind_some]
  cases hkey : keys kid with
  | none => simpa [Answer.orInvalid, Reflects, hkey] using hpresent
  | some key => exact ⟨kid, by simpa [hkey] using hpresent⟩

/-- A fresh cache justifies the key of the first lookup, and its absence too
unless the step mistakes a fill. -/
theorem reflects_fresh (hpc : (machine.run init past).pc e.thread = .looked kid read)
    (hnext : e.action = .next)
    (hfresh : (machine.run init past).cache.needsFetch kid e.time = false)
    (hsees : SeesFill (machine.run init past) e) :
    Reflects past e.thread (.orInvalid (held kid read) kid) := by
  have hkid : ((machine.run init past).pc e.thread).kid = some kid := by rw [hpc]; rfl
  have hread : ((machine.run init past).pc e.thread).read = some read := by rw [hpc]; rfl
  cases read with
  | some keys =>
      have hmoment := duringCall_read hkid hread
      cases hkey : keys kid with
      | none =>
          rw [held, Option.bind_some, hkey]
          exact hmoment.mono fun s hs => ⟨keys, hs, hkey⟩
      | some key =>
          rw [held, Option.bind_some, hkey]
          exact ⟨kid, hmoment.mono fun s hs => ⟨keys, hs, hkey⟩⟩
  | none =>
      have hmissing : (machine.run init past).cache.lookup kid = none := by
        simpa [SeesFill, misreadsFill, hpc, hnext, hfresh] using hsees
      have hfilled := (run_filled past).fetched (fetchedAt_isSome_of_needsFetch hfresh)
      have hpresent := reflects_present hkid hfilled
      rwa [hmissing] at hpresent

end Answers

/-- **Linearizability.** In a run that mistakes no fill, every key returned was
in the cached set at some moment of its call, and a 401 for a kid is given only
if the cached set was there and lacked the kid at some moment of its call. -/
theorem answer_reflects (past : List (Event Key τ)) (e : Event Key τ)
    (hsees : machine.Along SeesFill init (past ++ [e])) (answer : Answer Key)
    (hanswer : machine.answerAfter init past e = .answered answer) :
    Reflects past e.thread answer := by
  rw [Machine.answerAfter] at hanswer
  rcases step_cases (machine.run init past) e with hsame | ⟨t, htaken, hstep⟩
  · rw [hsame] at hanswer
    cases hanswer
  · rw [hstep] at hanswer
    simp only at hanswer
    generalize hpc : (machine.run init past).pc e.thread = pc at htaken
    generalize hnext : e.action = action at htaken
    cases htaken with
    | fresh kid read hneeds =>
        obtain rfl := Signal.answered.inj hanswer
        exact reflects_fresh hpc hnext hneeds hsees.last
    | backoff kid read hbackoff =>
        obtain rfl := Signal.answered.inj hanswer
        exact reflects_orUnavailable (by rw [hpc]; rfl) (by rw [hpc]; rfl) _
    | timeout kid read =>
        obtain rfl := Signal.answered.inj hanswer
        exact reflects_orUnavailable (by rw [hpc]; rfl) (by rw [hpc]; rfl) _
    | raise kid read exc =>
        obtain rfl := Signal.answered.inj hanswer
        exact reflects_orUnavailable (by rw [hpc]; rfl) (by rw [hpc]; rfl) _
    | answer kid =>
        obtain rfl := Signal.answered.inj hanswer
        exact reflects_present (by rw [hpc]; rfl)
          ((run_filled past).settled e.thread (by rw [hpc]; rfl))
    | _ => cases hanswer

/-- Thread 0 fills the cache with a set that has the kid "a". -/
def fill : List (Event ℕ ℕ) :=
  solo 0 ⟨some "a", 0, 0, 0, 1, .ok fun kid => if kid = some "a" then some 7 else none⟩

theorem answer_reflects_unknownKid :
    Reflects (fill ++ [⟨1, 5, .call (some "b")⟩, ⟨1, 5, .next⟩]) 1 (.invalidKey (some "b")) :=
  answer_reflects (fill ++ [⟨1, 5, .call (some "b")⟩, ⟨1, 5, .next⟩]) ⟨1, 5, .next⟩
    (by decide +kernel) (.invalidKey (some "b")) (by decide +kernel)

/-- Thread 1 finds the cache empty, then thread 0 fills it. -/
def fillBehind : List (Event ℕ ℕ) := [⟨1, 0, .call (some "a")⟩, ⟨1, 0, .next⟩] ++ fill

/-- Thread 1 answers that the kid "a" is unknown, although the only set ever
cached has it. -/
theorem fill_is_misread :
    ¬ ∀ (past : List (Event ℕ ℕ)) (e : Event ℕ ℕ) (answer : Answer ℕ),
      machine.answerAfter init past e = .answered answer → Reflects past e.thread answer := by
  intro hreflects
  obtain ⟨before, time, during, hpast, -, -, first, second, rfl, hmoment⟩ :=
    hreflects fillBehind ⟨1, 1, .next⟩ (.invalidKey (some "a")) (by decide +kernel)
  have hnever : ∀ n < 15, ((machine.run init (fillBehind.take n)).cache.keys.map
      fun keys => keys (some "a")) ≠ some none := by
    decide +kernel
  have hprefix : before ++ ⟨1, time, .call (some "a")⟩ :: first <+: fillBehind :=
    ⟨second, by rw [hpast]; simp⟩
  rw [cached_iff, List.prefix_iff_eq_take.1 hprefix] at hmoment
  exact hnever _ (Nat.lt_succ_of_le hprefix.length_le) hmoment

end DealFinder.Auth.Threads
