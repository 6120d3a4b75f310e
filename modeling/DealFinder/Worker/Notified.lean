/-
# Notifying once

The caller of the worker keeps the last state it was given back and passes it to the
next run. While no run raises after a delivery, the ids that state lists are those it
started with and all that were notified since (`seen_run`), so no user is told twice of
an item. A run that delivers and then raises returns nothing, and the next one delivers
the same again.
-/

import DealFinder.Math.Machine
import DealFinder.Worker.Suggestions

namespace DealFinder.Worker

open DealFinder.Math DealFinder.Features

universe u

/-! ## What is due, as sets -/

section Due

variable {find : String → ℤ → List (Product × ℚ)}

theorem mem_idsOf {calls : List Call} {id : String} :
    id ∈ idsOf calls ↔ ∃ call ∈ calls, call.product.id = id := by
  simp [idsOf]

theorem mem_callsFor_triple {mem : Memory} {s : SavedSearch} {key : Key} {id : String} :
    (key, id) ∈ (callsFor find mem s).map Call.triple ↔
      key = s.key ∧ id ∈ idsOf (callsFor find mem s) := by
  rw [mem_idsOf, List.mem_map]
  constructor
  · rintro ⟨call, hcall, htriple⟩
    obtain ⟨deal, -, rfl⟩ := List.mem_map.1 hcall
    obtain ⟨rfl, rfl⟩ := Prod.mk.inj htriple
    exact ⟨rfl, _, hcall, rfl⟩
  · rintro ⟨rfl, call, hcall, rfl⟩
    obtain ⟨deal, -, rfl⟩ := List.mem_map.1 hcall
    exact ⟨_, hcall, rfl⟩

/-- After a search the ids seen are those seen before and those told. -/
theorem mem_told {mem : Memory} {s : SavedSearch} {key : Key} {id : String} :
    id ∈ (mem.told find s).seen key ↔
      id ∈ mem.seen key ∨ (key, id) ∈ (callsFor find mem s).map Call.triple := by
  rw [mem_callsFor_triple, Memory.told, Memory.mark]
  split_ifs with hnone
  · simp [hnone]
  · by_cases hkey : key = s.key
    · simp [Memory.seen, hkey]
    · simp [Memory.seen, hkey]

theorem told_other {mem : Memory} {s : SavedSearch} {key : Key}
    (hother : ∀ id, (key, id) ∉ (callsFor find mem s).map Call.triple) :
    mem.told find s key = mem key := by
  rw [Memory.told, Memory.mark]
  split_ifs with hnone
  · rfl
  · obtain ⟨id, hid⟩ := Finset.nonempty_iff_ne_empty.2 hnone
    rw [Function.update_of_ne]
    intro hkey
    exact hother id (mem_callsFor_triple.2 ⟨hkey, hid⟩)

/-- After a run the ids seen are those seen before and those that were due. -/
theorem mem_recalled {saved : List SavedSearch} {mem : Memory} {key : Key} {id : String} :
    id ∈ (recalled find saved mem).seen key ↔
      id ∈ mem.seen key ∨ (key, id) ∈ (due find saved mem).map Call.triple := by
  induction saved generalizing mem with
  | nil => simp [recalled, due]
  | cons s rest ih => rw [recalled, ih, mem_told, due, List.map_append, List.mem_append, or_assoc]

/-- A key for which nothing was due keeps its entry. -/
theorem recalled_other {saved : List SavedSearch} {mem : Memory} {key : Key}
    (hother : ∀ id, (key, id) ∉ (due find saved mem).map Call.triple) :
    recalled find saved mem key = mem key := by
  induction saved generalizing mem with
  | nil => rfl
  | cons s rest ih =>
      simp only [due, List.map_append, List.mem_append, not_or] at hother
      rw [recalled, ih fun id => (hother id).2, told_other fun id => (hother id).1]

/-- Every deal found is seen after the run. -/
theorem seen_of_found {saved : List SavedSearch} {mem : Memory} {s : SavedSearch}
    (hs : s ∈ saved) {deal : Product × ℚ} (hdeal : deal ∈ find s.query s.k) :
    deal.1.id ∈ (recalled find saved mem).seen s.key := by
  induction saved generalizing mem with
  | nil => cases hs
  | cons first rest ih =>
      rw [recalled]
      rcases List.mem_cons.1 hs with rfl | hs
      · apply mem_recalled.2
        apply Or.inl
        rw [mem_told]
        by_cases hseen : deal.1.id ∈ mem.seen s.key
        · exact Or.inl hseen
        · have hcall : (⟨s, deal.1, deal.2⟩ : Call) ∈ callsFor find mem s :=
            List.mem_map.2 ⟨deal, List.mem_filter.2 ⟨hdeal, by simpa using hseen⟩, rfl⟩
          exact Or.inr (List.mem_map.2 ⟨_, hcall, rfl⟩)
      · exact ih hs

/-- What is due was not seen before. -/
theorem not_seen_of_due {saved : List SavedSearch} {mem : Memory} {key : Key} {id : String}
    (h : (key, id) ∈ (due find saved mem).map Call.triple) : id ∉ mem.seen key := by
  induction saved generalizing mem with
  | nil => cases h
  | cons s rest ih =>
      rw [due, List.map_append, List.mem_append] at h
      rcases h with h | h
      · obtain ⟨call, hcall, htriple⟩ := List.mem_map.1 h
        obtain ⟨deal, hdeal, rfl⟩ := List.mem_map.1 hcall
        obtain ⟨rfl, rfl⟩ := Prod.mk.inj htriple
        exact of_decide_eq_true (List.mem_filter.1 hdeal).2
      · exact fun hseen => ih h (mem_told.2 (Or.inl hseen))

/-- Nothing is due twice when a search finds each item once. -/
theorem nodup_due (hfind : ∀ query k, ((find query k).map fun deal => deal.1.id).Nodup)
    (saved : List SavedSearch) (mem : Memory) : ((due find saved mem).map Call.triple).Nodup := by
  induction saved generalizing mem with
  | nil => exact List.nodup_nil
  | cons s rest ih =>
      rw [due, List.map_append]
      refine (List.nodup_append'.2 ⟨?_, ih _, ?_⟩)
      · rw [callsFor, List.map_map]
        have hfresh := List.pairwise_map.1 (hfind s.query s.k)
        apply List.pairwise_map.2
        apply (hfresh.sublist List.filter_sublist).imp
        intro deal deal' hne htriple
        exact hne (congrArg Prod.snd htriple)
      · rintro ⟨key, id⟩ hnow hlater
        exact not_seen_of_due hlater (mem_told.2 (Or.inr hnow))

end Due

/-! ## Runs in sequence -/

/-- What a run is given besides the state. -/
structure Round (ν : Type u) where
  saved : List SavedSearch
  catalog : Catalog ν
  raises : ℕ → Bool

/-- The caller's objects, and the last state it was given back. -/
structure Caller where
  heap : Heap
  state : ℕ
  held : state < heap.dicts.length

/-- The ids that the caller's state lists. -/
def Caller.memory (c : Caller) : Memory := Worker.memory c.heap c.state

section Runs

variable {ν : Type u} (unicode : Unicode) (numerics : Numerics ν)

/-- The calls due in a round. -/
def Round.due (round : Round ν) (mem : Memory) : List Call :=
  Worker.due (findDeals unicode numerics round.catalog) round.saved mem

/-- One run of the worker. -/
def Round.run (round : Round ν) (c : Caller) : Outcome :=
  runSuggestions (findDeals unicode numerics round.catalog) round.raises round.saved c.heap c.state

theorem Round.held_run (round : Round ν) (c : Caller) :
    (round.run unicode numerics c).returned.getD c.state <
      (round.run unicode numerics c).heap.dicts.length := by
  obtain ⟨-, -, hreturned, -, hdicts⟩ := @runSuggestions_spec
    (findDeals unicode numerics round.catalog) round.raises round.saved c.heap c.state
  cases hnew : (round.run unicode numerics c).returned with
  | none => exact c.held.trans_le hdicts.length_le
  | some new => exact (hreturned new hnew).1

/-- The caller runs the worker, and keeps the state it is given back. -/
def caller : Machine Caller (Round ν) (List Call) where
  step c round :=
    ((round.run unicode numerics c).delivered,
      ⟨(round.run unicode numerics c).heap, (round.run unicode numerics c).returned.getD c.state,
        round.held_run unicode numerics c⟩)

/-- The calls that delivered over a sequence of runs. -/
def notified (c : Caller) (rounds : List (Round ν)) : List Call :=
  ((caller unicode numerics).observe (fun _ delivered => some delivered) c rounds).flatten

/-- The run raises at its first call, or not at all. -/
def RaisesFirst (c : Caller) (round : Round ν) : Prop :=
  round.raises 0 = true ∨
    ∀ n < (round.due unicode numerics c.memory).length, round.raises n = false

/-- No two products of the catalog share an id. -/
def DistinctIds (round : Round ν) : Prop := (round.catalog.products.map fun p => p.id).Nodup

end Runs

section Runs

variable {ν : Type u} {unicode : Unicode} {numerics : Numerics ν}

/-- A run delivers the first calls that are due. -/
theorem delivered_step (c : Caller) (round : Round ν) :
    ((caller unicode numerics).step c round).1 =
      (deliver round.raises (round.due unicode numerics c.memory) []).1 :=
  (runSuggestions_spec round.saved c.heap c.state).1

/-- The objects that were there are as they were. -/
theorem heap_step (c : Caller) (round : Round ν) :
    c.heap.sets <+: ((caller unicode numerics).step c round).2.heap.sets ∧
      c.heap.dicts <+: ((caller unicode numerics).step c round).2.heap.dicts := by
  obtain ⟨-, -, -, hsets, hdicts⟩ := @runSuggestions_spec
    (findDeals unicode numerics round.catalog) round.raises round.saved c.heap c.state
  exact ⟨hsets, hdicts⟩

/-- A run that raises leaves the caller with the ids it had. -/
theorem memory_step (c : Caller) (round : Round ν) :
    ((caller unicode numerics).step c round).2.memory =
      if (deliver round.raises (round.due unicode numerics c.memory) []).2 = true then
        recalled (findDeals unicode numerics round.catalog) round.saved c.memory
      else c.memory := by
  obtain ⟨-, hended, hreturned, hsets, hdicts⟩ := @runSuggestions_spec
    (findDeals unicode numerics round.catalog) round.raises round.saved c.heap c.state
  show memory (round.run unicode numerics c).heap
    ((round.run unicode numerics c).returned.getD c.state) = _
  change (round.run unicode numerics c).returned.isSome = _ at hended
  rw [Round.due, Caller.memory, ← hended]
  cases hnew : (round.run unicode numerics c).returned with
  | none =>
      rw [Option.isSome_none, if_neg Bool.false_ne_true, Option.getD_none]
      exact memory_of_prefix hsets hdicts c.held
  | some new =>
      rw [Option.isSome_some, if_pos rfl, Option.getD_some]
      exact (hreturned new hnew).2

/-- A run whose notifier raises at its first call or not at all delivers all or nothing. -/
theorem all_or_nothing {c : Caller} {round : Round ν}
    (hfirst : RaisesFirst unicode numerics c round) :
    (((caller unicode numerics).step c round).1 = round.due unicode numerics c.memory ∧
        ((caller unicode numerics).step c round).2.memory =
          recalled (findDeals unicode numerics round.catalog) round.saved c.memory) ∨
      (((caller unicode numerics).step c round).1 = [] ∧
        ((caller unicode numerics).step c round).2.memory = c.memory) := by
  rw [delivered_step, memory_step]
  rcases hfirst with hraises | hquiet
  · cases hdue : round.due unicode numerics c.memory with
    | nil => exact Or.inl ⟨rfl, rfl⟩
    | cons call rest =>
        apply Or.inr
        simp [deliver, hraises]
  · apply Or.inl
    rw [deliver_all fun n hn => hquiet n (by simpa using hn)]
    exact ⟨rfl, rfl⟩

theorem notified_concat (c : Caller) (past : List (Round ν)) (round : Round ν) :
    notified unicode numerics c (past ++ [round]) =
      notified unicode numerics c past ++
        ((caller unicode numerics).step ((caller unicode numerics).run c past) round).1 := by
  simp [notified, Machine.observe_concat, Machine.answerAfter]

/-- The ids that the caller's state lists are those it started with and those notified. -/
theorem seen_run {c : Caller} {rounds : List (Round ν)}
    (hfirst : (caller unicode numerics).Along (RaisesFirst unicode numerics) c rounds) (key : Key)
    (id : String) :
    id ∈ ((caller unicode numerics).run c rounds).memory.seen key ↔
      id ∈ c.memory.seen key ∨
        (key, id) ∈ (notified unicode numerics c rounds).map Call.triple := by
  refine Machine.run_induction (P := fun past now => id ∈ now.memory.seen key ↔
    id ∈ c.memory.seen key ∨ (key, id) ∈ (notified unicode numerics c past).map Call.triple)
    ?_ ?_ rounds hfirst
  · simp [notified, Machine.observe]
  · intro past round ih hround
    rw [notified_concat, List.map_append, List.mem_append, ← or_assoc, ← ih]
    rcases all_or_nothing hround with ⟨hdelivered, hmemory⟩ | ⟨hdelivered, hmemory⟩
    · rw [hdelivered, hmemory, mem_recalled]
      rfl
    · rw [hdelivered, hmemory]
      simp

/-- Nothing is delivered twice when no run raises after a delivery. -/
theorem nodup_notified {c : Caller} {rounds : List (Round ν)}
    (hids : ∀ round ∈ rounds, DistinctIds round)
    (hfirst : (caller unicode numerics).Along (RaisesFirst unicode numerics) c rounds) :
    ((notified unicode numerics c rounds).map Call.triple).Nodup := by
  induction rounds using List.reverseRecOn with
  | nil => exact List.nodup_nil
  | append_singleton past round ih =>
      have hpast := ih (fun r hr => hids r (List.mem_append_left _ hr)) hfirst.left
      rw [notified_concat, List.map_append]
      rcases all_or_nothing hfirst.last with ⟨hdelivered, -⟩ | ⟨hdelivered, -⟩
      · rw [hdelivered]
        have hround : DistinctIds round := hids round (by simp)
        refine List.nodup_append'.2 ⟨hpast, nodup_due (fun _ _ => nodup_findDeals hround) _ _, ?_⟩
        rintro ⟨key, id⟩ hbefore hnow
        exact not_seen_of_due hnow ((seen_run hfirst.left key id).2 (Or.inr hbefore))
      · rw [hdelivered, List.map_nil, List.append_nil]
        exact hpast

/-! ## A notifier that may raise -/

/-- Over any sequence of runs in which the notifier raises at the first call of a run or not
at all, no user is told twice of an item for a search. -/
theorem delivered_once {c : Caller} {rounds : List (Round ν)}
    (hids : ∀ round ∈ rounds, DistinctIds round)
    (hfirst : (caller unicode numerics).Along (RaisesFirst unicode numerics) c rounds)
    (triple : Key × String) :
    ((notified unicode numerics c rounds).map Call.triple).count triple ≤ 1 :=
  List.nodup_iff_count_le_one.1 (nodup_notified hids hfirst) triple

/-! ## A notifier that never raises -/

/-- What a run does after some others: it returns a new state; every deal it finds was
notified by then; what it notifies is what the new state lists and the old did not; the
other keys keep their entries; and no object that the caller had is changed. -/
structure ExactRun (unicode : Unicode) (numerics : Numerics ν) (c before after : Caller)
    (past : List (Round ν)) (round : Round ν) (delivered : List Call) : Prop where
  returned : (round.run unicode numerics before).returned = some after.state
  told : ∀ s ∈ round.saved, ∀ deal ∈ findDeals unicode numerics round.catalog s.query s.k,
    (s.key, deal.1.id) ∈ (notified unicode numerics c past ++ delivered).map Call.triple ∨
      deal.1.id ∈ c.memory.seen s.key
  growth : ∀ key id, (key, id) ∈ delivered.map Call.triple ↔
    id ∈ after.memory.seen key ∧ id ∉ before.memory.seen key
  kept : ∀ key, before.memory.seen key ⊆ after.memory.seen key
  others : ∀ key, (∀ id, (key, id) ∉ delivered.map Call.triple) →
    after.memory key = before.memory key
  sets_kept : before.heap.sets <+: after.heap.sets
  dicts_kept : before.heap.dicts <+: after.heap.dicts
  input_kept : Worker.memory after.heap before.state = before.memory

theorem raisesFirst_of_quiet {rounds : List (Round ν)}
    (hquiet : ∀ round ∈ rounds, ∀ n, round.raises n = false) (c : Caller) :
    (caller unicode numerics).Along (RaisesFirst unicode numerics) c rounds := by
  intro past round rest hsplit
  exact Or.inr fun n _ => hquiet round (by simp [hsplit]) n

/-- A run that does not raise delivers what is due and returns what it told. -/
theorem exactRun {c : Caller} {past : List (Round ν)} {round : Round ν}
    (hquiet : ∀ r ∈ past ++ [round], ∀ n, r.raises n = false) :
    ExactRun unicode numerics c ((caller unicode numerics).run c past)
      ((caller unicode numerics).step ((caller unicode numerics).run c past) round).2 past round
      ((caller unicode numerics).step ((caller unicode numerics).run c past) round).1 := by
  have hpast : (caller unicode numerics).Along (RaisesFirst unicode numerics) c past :=
    raisesFirst_of_quiet (fun r hr => hquiet r (List.mem_append_left _ hr)) c
  have hseen := seen_run hpast
  generalize (caller unicode numerics).run c past = before at hseen ⊢
  have hall : deliver round.raises (round.due unicode numerics before.memory) [] =
      (round.due unicode numerics before.memory, true) :=
    deliver_all fun n _ => hquiet round (by simp) n
  have hdelivered := @delivered_step ν unicode numerics before round
  have hmemory := @memory_step ν unicode numerics before round
  rw [hall] at hdelivered
  rw [hall, if_pos rfl] at hmemory
  obtain ⟨hsets, hdicts⟩ := @heap_step ν unicode numerics before round
  have hnew : ∀ key id, (key, id) ∈ (round.due unicode numerics before.memory).map Call.triple →
      id ∉ before.memory.seen key := fun key id => not_seen_of_due
  refine ⟨?_, ?_, ?_, ?_, ?_, hsets, hdicts, memory_of_prefix hsets hdicts before.held⟩
  · have hended : (round.run unicode numerics before).returned.isSome =
        (deliver round.raises (round.due unicode numerics before.memory) []).2 :=
      (runSuggestions_spec round.saved before.heap before.state).2.1
    rw [hall] at hended
    obtain ⟨new, hsome⟩ := Option.isSome_iff_exists.1 hended
    show _ = some ((round.run unicode numerics before).returned.getD before.state)
    rw [hsome, Option.getD_some]
  · intro s hs deal hdeal
    have hfound := @seen_of_found _ _ before.memory s hs deal hdeal
    rw [mem_recalled, hseen] at hfound
    rw [hdelivered, List.map_append, List.mem_append]
    rcases hfound with (hfirst | hbefore) | hnow
    · exact Or.inr hfirst
    · exact Or.inl (Or.inl hbefore)
    · exact Or.inl (Or.inr hnow)
  · intro key id
    rw [hdelivered, hmemory, mem_recalled]
    constructor
    · exact fun h => ⟨Or.inr h, hnew key id h⟩
    · rintro ⟨hold | hnow, hfresh⟩
      · exact absurd hold hfresh
      · exact hnow
  · intro key id hid
    rw [hmemory, mem_recalled]
    exact Or.inl hid
  · intro key hother
    rw [hdelivered] at hother
    rw [hmemory]
    exact recalled_other hother

/-- **Exactly once.** Over any sequence of runs whose notifier never raises, no user is told
twice of an item for a search, and every run of it is exact. -/
theorem exactly_once {c : Caller} {rounds : List (Round ν)}
    (hids : ∀ round ∈ rounds, DistinctIds round)
    (hquiet : ∀ round ∈ rounds, ∀ n, round.raises n = false) :
    ((notified unicode numerics c rounds).map Call.triple).Nodup ∧
      ∀ past round rest, rounds = past ++ round :: rest →
        ExactRun unicode numerics c ((caller unicode numerics).run c past)
          ((caller unicode numerics).step ((caller unicode numerics).run c past) round).2 past round
          ((caller unicode numerics).step ((caller unicode numerics).run c past) round).1 := by
  refine ⟨nodup_notified hids (raisesFirst_of_quiet hquiet c), ?_⟩
  rintro past round rest rfl
  apply exactRun
  intro r hr
  exact hquiet r (by simp only [List.mem_append, List.mem_cons] at hr ⊢; tauto)

end Runs

/-! ## A delivery that is repeated -/

/-- Two headphones well under their median. -/
def bargains : Catalog Unit where
  products := [headphones "a" 30, headphones "b" 40]
  embeddings := [(), ()]
  medians := (Dict.empty.set "a" 100).set "b" 100
  aligned := rfl

theorem distinctIds_bargains (saved : List SavedSearch) (raises : ℕ → Bool) :
    DistinctIds ⟨saved, bargains, raises⟩ := by
  show ["a", "b"].Nodup
  decide

/-- A caller with a state that lists nothing. -/
def newcomer : Caller where
  heap := ⟨[], [Dict.empty], by simp [Dict.values, Dict.empty]⟩
  state := 0
  held := Nat.one_pos

/-- One user's search, with a notifier that raises at some of its calls. -/
def bargainRound (raises : ℕ → Bool) : Round Unit := ⟨[⟨"u", "headphones", 5⟩], bargains, raises⟩

/-- A run that raises at its first call, then one that does not raise. -/
theorem delivered_once_bargains :
    ((notified ascii (constant 100) newcomer
        [bargainRound fun n => n = 0, bargainRound fun _ => false]).map Call.triple).count
      (("u", "headphones"), "a") ≤ 1 := by
  refine delivered_once ?_ ?_ _
  · simp [bargainRound, distinctIds_bargains]
  · simp [Machine.along_cons, RaisesFirst, bargainRound]

/-- Two runs that do not raise. -/
theorem exactly_once_bargains :
    ((notified ascii (constant 100) newcomer
        [bargainRound fun _ => false, bargainRound fun _ => false]).map Call.triple).Nodup ∧
      ∀ past round rest, [bargainRound fun _ => false, bargainRound fun _ => false] =
          past ++ round :: rest →
        ExactRun ascii (constant 100) newcomer ((caller ascii (constant 100)).run newcomer past)
          ((caller ascii (constant 100)).step ((caller ascii (constant 100)).run newcomer past)
            round).2 past round
          ((caller ascii (constant 100)).step ((caller ascii (constant 100)).run newcomer past)
            round).1 :=
  exactly_once (by simp [bargainRound, distinctIds_bargains]) (by simp [bargainRound])

/-- The run delivers one item and raises at the next; the run after it delivers both. -/
theorem delivered_again :
    ¬ ∀ (unicode : Unicode) (numerics : Numerics Unit) (c : Caller) (rounds : List (Round Unit)),
      (∀ round ∈ rounds, DistinctIds round) → ∀ triple : Key × String,
        ((notified unicode numerics c rounds).map Call.triple).count triple ≤ 1 := by
  intro hall
  have honce := hall ascii (constant 100) newcomer
    [bargainRound fun n => n = 1, bargainRound fun _ => false]
    (by simp [bargainRound, distinctIds_bargains]) (("u", "headphones"), "a")
  exact absurd honce (by decide +kernel)

end DealFinder.Worker
