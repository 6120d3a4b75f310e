/-
# Suggestions

`run_suggestions` searches the catalog for each saved search and notifies the user
of the deals that the state does not list as seen. The state is a dictionary of
references to set objects: a run copies it, reads the live sets while it notifies,
and adds to them afterwards. The notifier may raise, and then the run returns no state.

What a run does is due on the sets it was given (`runSuggestions_spec`): the heap is
only extended, so the state that was passed in keeps its contents.
-/

import DealFinder.Worker.Retrieval
import Mathlib.Data.Finset.Basic
import Mathlib.Data.List.GetD

namespace DealFinder.Worker

open DealFinder.Math DealFinder.Features

universe u

/-- `SavedSearch`. -/
structure SavedSearch where
  userId : String
  query : String
  k : ℤ := 5
  deriving DecidableEq

/-- `(user_id, query)`. -/
abbrev Key := String × String

/-- `SuggestionState.key`. -/
def SavedSearch.key (s : SavedSearch) : Key := (s.userId, s.query)

/-- `Notification`. -/
structure Notification where
  userId : String
  query : String
  itemId : String
  title : String
  price : ℚ
  dealScore : ℚ
  deriving DecidableEq

/-- A call of the notifier: the search, the product and its score. -/
structure Call where
  search : SavedSearch
  product : Product
  score : ℚ

/-- The notification of a call. -/
def Call.note (call : Call) : Notification where
  userId := call.search.userId
  query := call.search.query
  itemId := call.product.id
  title := call.product.title
  price := call.product.price
  dealScore := call.score

/-- What a user was told of: the search and the item. -/
def Call.triple (call : Call) : Key × String := (call.search.key, call.product.id)

/-! ## Objects -/

/-- The set objects and the `seen` dictionaries, by reference. No dictionary refers to a
set object that was not allocated. -/
structure Heap where
  sets : List (Finset String)
  dicts : List (Dict Key ℕ)
  closed : ∀ d ∈ dicts, ∀ ref ∈ d.values, ref < sets.length

namespace Heap

/-- The ids in a set object. -/
def contents (h : Heap) (ref : ℕ) : Finset String := h.sets.getD ref ∅

/-- The dictionary of a state. -/
def dict (h : Heap) (state : ℕ) : Dict Key ℕ := h.dicts.getD state Dict.empty

theorem closed_dict (h : Heap) (state : ℕ) :
    ∀ ref ∈ (h.dict state).values, ref < h.sets.length := by
  unfold dict
  rw [List.getD_eq_getElem?_getD]
  cases hd : h.dicts[state]? with
  | none => simp [Dict.empty, Dict.values]
  | some d => exact h.closed d (List.mem_of_getElem? hd)

/-- Allocate some set objects. -/
def allocSets (h : Heap) (sets : List (Finset String)) : Heap where
  sets := h.sets ++ sets
  dicts := h.dicts
  closed := by
    intro d hd ref href
    have hlt := h.closed d hd ref href
    rw [List.length_append]
    omega

/-- Allocate a dictionary. -/
def allocDict (h : Heap) (d : Dict Key ℕ) (hd : ∀ ref ∈ d.values, ref < h.sets.length) : Heap where
  sets := h.sets
  dicts := h.dicts ++ [d]
  closed := by
    intro e he
    rcases List.mem_append.1 he with he | he
    · exact h.closed e he
    · rw [List.mem_singleton.1 he]
      exact hd

/-- `ref.update(ids)`. -/
def addTo (h : Heap) (ref : ℕ) (ids : Finset String) : Heap where
  sets := h.sets.set ref (h.contents ref ∪ ids)
  dicts := h.dicts
  closed := by
    rw [List.length_set]
    exact h.closed

/-- `seen[key] = ref`. -/
def assign (h : Heap) (state : ℕ) (key : Key) (ref : ℕ) (href : ref < h.sets.length) : Heap where
  sets := h.sets
  dicts := h.dicts.set state ((h.dict state).set key ref)
  closed := by
    intro d hd r hr
    rcases List.mem_or_eq_of_mem_set hd with hd | rfl
    · exact h.closed d hd r hr
    · obtain ⟨k, hk⟩ := Dict.mem_values_iff.1 hr
      rw [Dict.get?_set] at hk
      split_ifs at hk
      · exact Option.some.inj hk ▸ href
      · exact h.closed_dict state r (Dict.mem_values_iff.2 ⟨k, hk⟩)

/-- The entries of a copied dictionary: each key with a set object of its own. -/
def copied (h : Heap) (d : Dict Key ℕ) : Dict Key ℕ where
  entries := d.entries.zipIdx.map fun place => (place.1.1, h.sets.length + place.2)
  nodup_keys := by
    have hkeys : (d.entries.zipIdx.map fun place => (place.1.1, h.sets.length + place.2)).map
        Prod.fst = (d.entries.zipIdx.map Prod.fst).map Prod.fst := by
      simp only [List.map_map, Function.comp_def]
    rw [hkeys, List.zipIdx_map_fst]
    exact d.nodup_keys

theorem mem_values_copied {h : Heap} {d : Dict Key ℕ} {ref : ℕ} (href : ref ∈ (h.copied d).values) :
    h.sets.length ≤ ref ∧ ref < h.sets.length + d.values.length := by
  obtain ⟨entry, hentry, rfl⟩ := List.mem_map.1 href
  obtain ⟨place, hplace, rfl⟩ := List.mem_map.1 hentry
  have hlt := List.snd_lt_of_mem_zipIdx hplace
  simp only [Dict.values, List.length_map]
  omega

end Heap

/-! ## States -/

/-- `SuggestionState.copy`: the reference of the copy. -/
def copy (h : Heap) (state : ℕ) : ℕ × Heap :=
  let d := h.dict state
  (h.dicts.length, (h.allocSets (d.values.map h.contents)).allocDict (h.copied d) (by
    intro ref href
    have hlt := (Heap.mem_values_copied href).2
    simpa [Heap.allocSets] using hlt))

/-- `SuggestionState.already_seen`: the live set object of the search, or a new one. -/
def alreadySeen (h : Heap) (state : ℕ) (s : SavedSearch) : ℕ × Heap :=
  ((h.dict state).getD s.key h.sets.length, h.allocSets [∅])

/-- `SuggestionState.mark_seen`. -/
def markSeen (h : Heap) (state : ℕ) (s : SavedSearch) (ids : Finset String) : Heap :=
  match (h.dict state).get? s.key with
  | some ref => (h.allocSets [∅]).addTo ref ids
  | none =>
      ((h.allocSets [∅]).assign state s.key h.sets.length (by simp [Heap.allocSets])).addTo
        h.sets.length ids

/-! ## The job -/

section Job

/-- `DEAL_SCORE_THRESHOLD`. -/
def dealScoreThreshold : ℚ := 30 / 100

/-- `find_deals`. -/
def findDeals {ν : Type u} (unicode : Unicode) (numerics : Numerics ν) (catalog : Catalog ν)
    (query : String) (k : ℤ) : List (Product × ℚ) :=
  ((searchCatalog unicode numerics catalog query k (1 / 2)).filter fun result =>
    dealScoreThreshold ≤ result.2.2).map fun result => result.2

variable (find : String → ℤ → List (Product × ℚ)) (raises : ℕ → Bool)

/-- The loop over the deals of a search: the calls that delivered, and the fresh ids unless
the notifier raised. `raises n` says whether the call after `n` deliveries raises. -/
def tell (h : Heap) (s : SavedSearch) (seen : ℕ) :
    List (Product × ℚ) → List Call → Finset String → List Call × Option (Finset String)
  | [], delivered, fresh => (delivered, some fresh)
  | (product, score) :: rest, delivered, fresh =>
      if product.id ∈ h.contents seen then tell h s seen rest delivered fresh
      else if raises delivered.length then (delivered, none)
      else tell h s seen rest (delivered ++ [⟨s, product, score⟩]) (insert product.id fresh)

/-- The loop over the saved searches: the heap, the calls that delivered, and whether it
ended without an exception. -/
def runLoop (state : ℕ) : List SavedSearch → Heap → List Call → Heap × List Call × Bool
  | [], h, delivered => (h, delivered, true)
  | s :: rest, h, delivered =>
      let (seen, h) := alreadySeen h state s
      match tell raises h s seen (find s.query s.k) delivered ∅ with
      | (delivered, none) => (h, delivered, false)
      | (delivered, some fresh) =>
          runLoop state rest (if fresh = ∅ then h else markSeen h state s fresh) delivered

/-- What a run leaves: the heap, the calls that delivered, and the new state unless the
notifier raised. The notifications it returns are those of the calls. -/
structure Outcome where
  heap : Heap
  delivered : List Call
  returned : Option ℕ

/-- `run_suggestions`. -/
def runSuggestions (saved : List SavedSearch) (h : Heap) (state : ℕ) : Outcome :=
  let (newState, h) := copy h state
  let (h, delivered, ended) := runLoop find raises newState saved h []
  ⟨h, delivered, if ended then some newState else none⟩

end Job

/-! ## What is due -/

/-- The ids seen under each key. -/
abbrev Memory := Key → Option (Finset String)

/-- The ids that a state lists. -/
def memory (h : Heap) (state : ℕ) : Memory := fun key => ((h.dict state).get? key).map h.contents

namespace Memory

/-- The ids seen under a key, none when the key is absent. -/
def seen (mem : Memory) (key : Key) : Finset String := (mem key).getD ∅

/-- Add ids to those of a key. -/
def mark (mem : Memory) (key : Key) (ids : Finset String) : Memory :=
  if ids = ∅ then mem else Function.update mem key (some (mem.seen key ∪ ids))

end Memory

section Due

variable (find : String → ℤ → List (Product × ℚ)) (raises : ℕ → Bool)

/-- The calls due for one search: one for each deal that was not seen. -/
def callsFor (mem : Memory) (s : SavedSearch) : List Call :=
  ((find s.query s.k).filter fun deal => deal.1.id ∉ mem.seen s.key).map fun deal =>
    ⟨s, deal.1, deal.2⟩

/-- The items of some calls. -/
def idsOf (calls : List Call) : Finset String := (calls.map fun call => call.product.id).toFinset

/-- The ids seen after a search. -/
def Memory.told (mem : Memory) (s : SavedSearch) : Memory :=
  mem.mark s.key (idsOf (callsFor find mem s))

/-- The calls due in a run. -/
def due : List SavedSearch → Memory → List Call
  | [], _ => []
  | s :: rest, mem => callsFor find mem s ++ due rest (mem.told find s)

/-- The ids seen after a run. -/
def recalled : List SavedSearch → Memory → Memory
  | [], mem => mem
  | s :: rest, mem => recalled rest (mem.told find s)

/-- Make calls in order: those that delivered, and whether none raised. -/
def deliver : List Call → List Call → List Call × Bool
  | [], delivered => (delivered, true)
  | call :: rest, delivered =>
      if raises delivered.length then (delivered, false) else deliver rest (delivered ++ [call])

end Due

section Refinement

variable {find : String → ℤ → List (Product × ℚ)} {raises : ℕ → Bool}

theorem deliver_append (first second delivered : List Call) :
    deliver raises (first ++ second) delivered =
      if (deliver raises first delivered).2 = true then
        deliver raises second (deliver raises first delivered).1
      else ((deliver raises first delivered).1, false) := by
  induction first generalizing delivered with
  | nil => rfl
  | cons call rest ih =>
      rw [List.cons_append]
      by_cases hraises : raises delivered.length = true
      · simp only [deliver, if_pos hraises, Bool.false_eq_true, if_false]
      · simp only [deliver, if_neg hraises]
        exact ih _

/-- The loop over the deals makes the calls due for the search. -/
theorem tell_eq (h : Heap) (s : SavedSearch) (ref : ℕ) (deals : List (Product × ℚ))
    (delivered : List Call) (fresh : Finset String) :
    tell raises h s ref deals delivered fresh =
      let calls := (deals.filter fun deal => deal.1.id ∉ h.contents ref).map fun deal =>
        (⟨s, deal.1, deal.2⟩ : Call)
      ((deliver raises calls delivered).1,
        if (deliver raises calls delivered).2 = true then some (fresh ∪ idsOf calls)
        else none) := by
  induction deals generalizing delivered fresh with
  | nil => simp [tell, deliver, idsOf]
  | cons deal rest ih =>
      obtain ⟨product, score⟩ := deal
      rw [tell]
      by_cases hseen : product.id ∈ h.contents ref
      · rw [if_pos hseen, ih]
        simp [hseen]
      · rw [if_neg hseen]
        simp only [List.filter_cons, hseen, not_false_eq_true, decide_true, if_true, List.map_cons]
        by_cases hraises : raises delivered.length = true
        · simp only [deliver, if_pos hraises, Bool.false_eq_true, if_false]
        · simp only [deliver, if_neg hraises, ih]
          simp only [idsOf, List.map_cons, List.toFinset_cons, Finset.insert_union,
            Finset.union_insert]

/-! ## Objects that a run may change -/

/-- A state under work in a heap that extends an earlier one: its set objects are new, and
it shares none between two keys. -/
structure Working (old h : Heap) (state : ℕ) : Prop where
  sets : old.sets <+: h.sets
  dicts : old.dicts <+: h.dicts
  state_new : old.dicts.length ≤ state
  allocated : state < h.dicts.length
  sets_new : ∀ ref ∈ (h.dict state).values, old.sets.length ≤ ref
  distinct : (h.dict state).values.Nodup

theorem contents_of_prefix {old h : Heap} (hsets : old.sets <+: h.sets) {ref : ℕ}
    (href : ref < old.sets.length) : h.contents ref = old.contents ref := by
  obtain ⟨rest, hrest⟩ := hsets
  rw [Heap.contents, Heap.contents, ← hrest, List.getD_append _ _ _ _ href]

theorem dict_of_prefix {old h : Heap} (hdicts : old.dicts <+: h.dicts) {state : ℕ}
    (hstate : state < old.dicts.length) : h.dict state = old.dict state := by
  obtain ⟨rest, hrest⟩ := hdicts
  rw [Heap.dict, Heap.dict, ← hrest, List.getD_append _ _ _ _ hstate]

/-- What a heap is extended by leaves the ids of its states. -/
theorem memory_of_prefix {old h : Heap} (hsets : old.sets <+: h.sets)
    (hdicts : old.dicts <+: h.dicts) {state : ℕ} (hstate : state < old.dicts.length) :
    memory h state = memory old state := by
  funext key
  rw [memory, memory, dict_of_prefix hdicts hstate]
  cases hget : (old.dict state).get? key with
  | none => rfl
  | some ref =>
      have href := old.closed_dict state ref (Dict.mem_values_iff.2 ⟨key, hget⟩)
      simp only [Option.map_some, contents_of_prefix hsets href]

theorem Working.sets_le {old h : Heap} {state : ℕ} (hworking : Working old h state) :
    old.sets.length ≤ h.sets.length := hworking.sets.length_le

/-- A copy has set objects of its own. -/
theorem working_copy (h : Heap) (state : ℕ) : Working h (copy h state).2 (copy h state).1 := by
  have hdict : (copy h state).2.dict (copy h state).1 = h.copied (h.dict state) := by
    simp [copy, Heap.dict, Heap.allocDict, Heap.allocSets]
  refine ⟨List.prefix_append _ _, List.prefix_append _ _, le_rfl, ?_, ?_, ?_⟩
  · simp [copy, Heap.allocDict, Heap.allocSets]
  · rw [hdict]
    exact fun ref href => (Heap.mem_values_copied href).1
  · rw [hdict]
    have hvalues : (h.copied (h.dict state)).values =
        ((h.dict state).entries.zipIdx.map Prod.snd).map fun i => h.sets.length + i := by
      simp only [Dict.values, Heap.copied, List.map_map, Function.comp_def]
    rw [hvalues, List.zipIdx_map_snd]
    exact (List.nodup_range' ..).map (add_right_injective _)

/-- A copy lists the same ids. -/
theorem memory_copy (h : Heap) (state : ℕ) :
    memory (copy h state).2 (copy h state).1 = memory h state := by
  have hdict : (copy h state).2.dict (copy h state).1 = h.copied (h.dict state) := by
    simp [copy, Heap.dict, Heap.allocDict, Heap.allocSets]
  funext key
  rw [memory, memory, hdict]
  cases hget : (h.dict state).get? key with
  | none =>
      have hkeys : (h.copied (h.dict state)).keys = (h.dict state).keys := by
        have hfirst := List.zipIdx_map_fst 0 (h.dict state).entries
        calc (h.copied (h.dict state)).keys
            = ((h.dict state).entries.zipIdx.map Prod.fst).map Prod.fst := by
              simp only [Dict.keys, Heap.copied, List.map_map, Function.comp_def]
          _ = (h.dict state).keys := by rw [hfirst]; rfl
      have hnone : (h.copied (h.dict state)).get? key = none := by
        rw [Dict.get?_eq_none_iff, Dict.mem_def, hkeys, ← Dict.mem_def, ← Dict.get?_eq_none_iff]
        exact hget
      rw [hnone]
      rfl
  | some ref =>
      obtain ⟨i, hi⟩ := List.mem_iff_getElem?.1 (Dict.get?_eq_some_iff.1 hget)
      have hsome : (h.copied (h.dict state)).get? key = some (h.sets.length + i) := by
        apply Dict.get?_eq_some_iff.2
        exact List.mem_map.2 ⟨((key, ref), i), List.mem_zipIdx_iff_getElem?.2 hi, rfl⟩
      have hcontents : (copy h state).2.contents (h.sets.length + i) = h.contents ref := by
        show (h.sets ++ (h.dict state).values.map h.contents).getD (h.sets.length + i) ∅ = _
        rw [List.getD_eq_getElem?_getD, List.getElem?_append_right (Nat.le_add_right _ _),
          Nat.add_sub_cancel_left, Dict.values, List.map_map, List.getElem?_map, hi]
        rfl
      rw [hsome, Option.map_some, Option.map_some, hcontents]

theorem prefix_allocSets (h : Heap) (sets : List (Finset String)) :
    h.sets <+: (h.allocSets sets).sets := List.prefix_append _ _

theorem Working.alloc {old h : Heap} {state : ℕ} (hworking : Working old h state)
    (sets : List (Finset String)) : Working old (h.allocSets sets) state :=
  ⟨hworking.sets.trans (prefix_allocSets h sets), hworking.dicts, hworking.state_new,
    hworking.allocated, hworking.sets_new, hworking.distinct⟩

theorem memory_allocSets (h : Heap) (sets : List (Finset String)) {state : ℕ}
    (hstate : state < h.dicts.length) : memory (h.allocSets sets) state = memory h state := by
  have hdicts : h.dicts <+: (h.allocSets sets).dicts := List.prefix_refl _
  exact memory_of_prefix (prefix_allocSets h sets) hdicts hstate

/-- The set object read lists the ids seen for the search. -/
theorem contents_alreadySeen (h : Heap) (state : ℕ) (s : SavedSearch) :
    (alreadySeen h state s).2.contents (alreadySeen h state s).1 = (memory h state).seen s.key := by
  rw [Memory.seen, memory]
  cases hget : (h.dict state).get? s.key with
  | none => simp [alreadySeen, Dict.getD, hget, Heap.contents, Heap.allocSets]
  | some ref =>
      have href := h.closed_dict state ref (Dict.mem_values_iff.2 ⟨s.key, hget⟩)
      have hkeep := contents_of_prefix (prefix_allocSets h [∅]) href
      simpa [alreadySeen, Dict.getD, hget] using hkeep

theorem contents_addTo (h : Heap) {ref : ℕ} (href : ref < h.sets.length) (ids : Finset String)
    (other : ℕ) :
    (h.addTo ref ids).contents other =
      if other = ref then h.contents ref ∪ ids else h.contents other := by
  simp only [Heap.contents, Heap.addTo, List.getD_eq_getElem?_getD, List.getElem?_set]
  by_cases heq : ref = other
  · rw [if_pos heq, if_pos heq.symm, if_pos (heq ▸ href), Option.getD_some]
  · rw [if_neg heq, if_neg (Ne.symm heq)]

/-- Adding to a set object of the state under work changes the ids of its key alone. -/
theorem Working.addTo {old h : Heap} {state : ℕ} (hworking : Working old h state) {key : Key}
    {ref : ℕ} (hget : (h.dict state).get? key = some ref) (ids : Finset String) :
    Working old (h.addTo ref ids) state ∧
      memory (h.addTo ref ids) state =
        Function.update (memory h state) key (some (h.contents ref ∪ ids)) := by
  have hvalue : ref ∈ (h.dict state).values := Dict.mem_values_iff.2 ⟨key, hget⟩
  have href := h.closed_dict state ref hvalue
  constructor
  · refine ⟨?_, hworking.dicts, hworking.state_new, hworking.allocated, hworking.sets_new,
      hworking.distinct⟩
    obtain ⟨rest, hrest⟩ := hworking.sets
    have hnew := hworking.sets_new ref hvalue
    show old.sets <+: h.sets.set ref _
    rw [← hrest, List.set_append_right _ _ hnew]
    exact List.prefix_append _ _
  · funext other
    show ((h.dict state).get? other).map (h.addTo ref ids).contents = _
    by_cases hkey : other = key
    · rw [hkey, hget, Function.update_self, Option.map_some, contents_addTo h href, if_pos rfl]
    · rw [Function.update_of_ne hkey, memory]
      cases hother : (h.dict state).get? other with
      | none => rfl
      | some ref' =>
          have hne : ref' ≠ ref := by
            rintro rfl
            -- Two keys of the state would share a set object.
            have hentry := List.inj_on_of_nodup_map hworking.distinct
              (Dict.get?_eq_some_iff.1 hother) (Dict.get?_eq_some_iff.1 hget) rfl
            exact hkey (congrArg Prod.fst hentry)
          rw [Option.map_some, Option.map_some, contents_addTo h href, if_neg hne]

theorem dict_assign {h : Heap} {state : ℕ} (hstate : state < h.dicts.length) (key : Key) {ref : ℕ}
    (href : ref < h.sets.length) :
    (h.assign state key ref href).dict state = (h.dict state).set key ref := by
  rw [Heap.dict, List.getD_eq_getElem?_getD]
  simp [Heap.assign, hstate]

/-- Giving a new key a new set object. -/
theorem Working.assign {old h : Heap} {state : ℕ} (hworking : Working old h state) {key : Key}
    (hget : (h.dict state).get? key = none) {ref : ℕ} (hempty : h.contents ref = ∅)
    (href : ref < h.sets.length) (hnew : old.sets.length ≤ ref)
    (hfresh : ref ∉ (h.dict state).values) :
    Working old (h.assign state key ref href) state ∧
      memory (h.assign state key ref href) state =
        Function.update (memory h state) key (some ∅) := by
  have hdict := dict_assign hworking.allocated key href
  have hvalues : ((h.dict state).set key ref).values = (h.dict state).values ++ [ref] := by
    rw [Dict.values, Dict.entries_set_of_not_mem _ (Dict.get?_eq_none_iff.1 hget), List.map_append]
    rfl
  constructor
  · refine ⟨hworking.sets, ?_, hworking.state_new, ?_, ?_, ?_⟩
    · obtain ⟨rest, hrest⟩ := hworking.dicts
      have hlate := hworking.state_new
      show old.dicts <+: h.dicts.set state _
      rw [← hrest, List.set_append_right _ _ hlate]
      exact List.prefix_append _ _
    · show state < (h.dicts.set state _).length
      rw [List.length_set]
      exact hworking.allocated
    · rw [hdict, hvalues]
      intro r hr
      rcases List.mem_append.1 hr with hr | hr
      · exact hworking.sets_new r hr
      · rw [List.mem_singleton.1 hr]
        exact hnew
    · rw [hdict, hvalues]
      exact hworking.distinct.append (List.nodup_singleton _) (by simpa using hfresh)
  · funext other
    show (((h.assign state key ref href).dict state).get? other).map h.contents = _
    rw [hdict, Dict.get?_set]
    by_cases hkey : other = key
    · rw [if_pos hkey, hkey, Function.update_self, Option.map_some, hempty]
    · rw [if_neg hkey, Function.update_of_ne hkey]
      rfl

/-- `mark_seen` adds the ids to those of the search, and leaves the other keys. -/
theorem Working.markSeen {old h : Heap} {state : ℕ} (hworking : Working old h state)
    (s : SavedSearch) {ids : Finset String} (hids : ids ≠ ∅) :
    Working old (markSeen h state s ids) state ∧
      memory (markSeen h state s ids) state = (memory h state).mark s.key ids := by
  have halloc := hworking.alloc [∅]
  have hsame := memory_allocSets h [∅] hworking.allocated
  rw [Memory.mark, if_neg hids]
  cases hget : (h.dict state).get? s.key with
  | some ref =>
      have hlive := contents_alreadySeen h state s
      simp only [alreadySeen, Dict.getD, hget, Option.getD_some] at hlive
      have hadd := halloc.addTo hget ids
      rw [hlive, hsame] at hadd
      simpa only [Worker.markSeen, hget] using hadd
  | none =>
      have hseen : (memory h state).seen s.key = ∅ := by
        simp [Memory.seen, memory, hget]
      have hlast : h.sets.length < (h.allocSets [∅]).sets.length := by simp [Heap.allocSets]
      have hempty : (h.allocSets [∅]).contents h.sets.length = ∅ := by
        simp [Heap.contents, Heap.allocSets]
      have hfresh : h.sets.length ∉ (h.dict state).values := fun hmem =>
        lt_irrefl _ (h.closed_dict state _ hmem)
      have hassign := halloc.assign hget hempty hlast hworking.sets_le hfresh
      have hkey : (((h.allocSets [∅]).assign state s.key h.sets.length hlast).dict state).get?
          s.key = some h.sets.length := by
        rw [dict_assign halloc.allocated, Dict.get?_set_self]
      have hadd := hassign.1.addTo hkey ids
      have hcontents : ((h.allocSets [∅]).assign state s.key h.sets.length hlast).contents
          h.sets.length = ∅ := hempty
      rw [hassign.2, hcontents, Function.update_idem, hsame] at hadd
      rw [hseen]
      simpa only [Worker.markSeen, hget] using hadd

/-- After a search whose calls all delivered, the state lists what was told. -/
theorem Working.told {old h : Heap} {state : ℕ} (hworking : Working old h state)
    (s : SavedSearch) :
    Working old
        (if idsOf (callsFor find (memory h state) s) = ∅ then (alreadySeen h state s).2
          else Worker.markSeen (alreadySeen h state s).2 state s
            (idsOf (callsFor find (memory h state) s))) state ∧
      memory
        (if idsOf (callsFor find (memory h state) s) = ∅ then (alreadySeen h state s).2
          else Worker.markSeen (alreadySeen h state s).2 state s
            (idsOf (callsFor find (memory h state) s))) state =
        (memory h state).told find s := by
  have halloc := hworking.alloc [∅]
  have hsame := memory_allocSets h [∅] hworking.allocated
  rw [Memory.told]
  by_cases hids : idsOf (callsFor find (memory h state) s) = ∅
  · rw [if_pos hids, Memory.mark, if_pos hids]
    exact ⟨halloc, hsame⟩
  · rw [if_neg hids]
    have hmark := halloc.markSeen s hids
    rwa [hsame] at hmark

/-- The loop makes the calls due, and the state lists what they told when none raised. -/
theorem runLoop_spec {old h : Heap} {state : ℕ} (hworking : Working old h state)
    (saved : List SavedSearch) (delivered : List Call) :
    Working old (runLoop find raises state saved h delivered).1 state ∧
      (runLoop find raises state saved h delivered).2 =
        deliver raises (due find saved (memory h state)) delivered ∧
      ((runLoop find raises state saved h delivered).2.2 = true →
        memory (runLoop find raises state saved h delivered).1 state =
          recalled find saved (memory h state)) := by
  induction saved generalizing h delivered with
  | nil => exact ⟨hworking, rfl, fun _ => rfl⟩
  | cons s rest ih =>
      have htell : tell raises (alreadySeen h state s).2 s (alreadySeen h state s).1
          (find s.query s.k) delivered ∅ =
            ((deliver raises (callsFor find (memory h state) s) delivered).1,
              if (deliver raises (callsFor find (memory h state) s) delivered).2 = true then
                some (idsOf (callsFor find (memory h state) s)) else none) := by
        rw [tell_eq, contents_alreadySeen]
        simp only [Finset.empty_union]
        rfl
      have hstep : runLoop find raises state (s :: rest) h delivered =
          match tell raises (alreadySeen h state s).2 s (alreadySeen h state s).1
            (find s.query s.k) delivered ∅ with
          | (delivered, none) => ((alreadySeen h state s).2, delivered, false)
          | (delivered, some fresh) =>
              runLoop find raises state rest
                (if fresh = ∅ then (alreadySeen h state s).2
                  else markSeen (alreadySeen h state s).2 state s fresh) delivered := rfl
      rw [hstep, htell, due, deliver_append, recalled]
      by_cases hended : (deliver raises (callsFor find (memory h state) s) delivered).2 = true
      · rw [if_pos hended, if_pos hended]
        obtain ⟨htold, hmemory⟩ := @Working.told find old h state hworking s
        have hrest := ih htold (deliver raises (callsFor find (memory h state) s) delivered).1
        rwa [hmemory] at hrest
      · rw [if_neg hended, if_neg hended]
        exact ⟨hworking.alloc [∅], rfl, fun hfalse => by cases hfalse⟩

/-- **What a run does.** It makes the calls that are due on the ids its state listed; the
state it returns lists these calls too; and every object that was there is as it was. -/
theorem runSuggestions_spec (saved : List SavedSearch) (h : Heap) (state : ℕ) :
    (runSuggestions find raises saved h state).delivered =
        (deliver raises (due find saved (memory h state)) []).1 ∧
      ((runSuggestions find raises saved h state).returned.isSome =
        (deliver raises (due find saved (memory h state)) []).2) ∧
      (∀ new, (runSuggestions find raises saved h state).returned = some new →
        new < (runSuggestions find raises saved h state).heap.dicts.length ∧
          memory (runSuggestions find raises saved h state).heap new =
            recalled find saved (memory h state)) ∧
      h.sets <+: (runSuggestions find raises saved h state).heap.sets ∧
      h.dicts <+: (runSuggestions find raises saved h state).heap.dicts := by
  obtain ⟨hworking, hdelivered, hmemory⟩ :=
    @runLoop_spec find raises _ _ _ (working_copy h state) saved []
  rw [memory_copy] at hdelivered hmemory
  have hrun : runSuggestions find raises saved h state =
      ⟨(runLoop find raises (copy h state).1 saved (copy h state).2 []).1,
        (runLoop find raises (copy h state).1 saved (copy h state).2 []).2.1,
        if (runLoop find raises (copy h state).1 saved (copy h state).2 []).2.2 = true then
          some (copy h state).1 else none⟩ := rfl
  rw [hrun, ← hdelivered]
  refine ⟨rfl, ?_, ?_, hworking.sets, hworking.dicts⟩
  · show (if _ then some (copy h state).1 else none).isSome = _
    split_ifs with hended
    · exact hended.symm
    · exact (Bool.eq_false_iff.2 hended).symm
  · intro new hnew
    replace hnew : (if (runLoop find raises (copy h state).1 saved (copy h state).2 []).2.2 = true
      then some (copy h state).1 else none) = some new := hnew
    split_ifs at hnew with hended
    obtain rfl := Option.some.inj hnew
    exact ⟨hworking.allocated, hmemory hended⟩

/-! ## Calls and deals -/

/-- A call due is for a deal that its search found. -/
theorem mem_due {saved : List SavedSearch} {mem : Memory} {call : Call}
    (h : call ∈ due find saved mem) :
    call.search ∈ saved ∧
      (call.product, call.score) ∈ find call.search.query call.search.k := by
  induction saved generalizing mem with
  | nil => cases h
  | cons s rest ih =>
      rw [due, List.mem_append] at h
      rcases h with h | h
      · obtain ⟨deal, hdeal, rfl⟩ := List.mem_map.1 h
        exact ⟨List.mem_cons_self, (List.mem_filter.1 hdeal).1⟩
      · obtain ⟨hsearch, hdeal⟩ := ih h
        exact ⟨List.mem_cons_of_mem _ hsearch, hdeal⟩

/-- What is delivered are the first calls. -/
theorem deliver_initial (calls delivered : List Call) :
    (deliver raises calls delivered).1 <+: delivered ++ calls := by
  induction calls generalizing delivered with
  | nil => simp [deliver]
  | cons call rest ih =>
      rw [deliver]
      split_ifs with hraises
      · exact List.prefix_append _ _
      · have hrest := ih (delivered ++ [call])
        rwa [List.append_assoc] at hrest

/-- When no call raises, all are delivered. -/
theorem deliver_all {calls delivered : List Call}
    (hquiet : ∀ n, n < delivered.length + calls.length → raises n = false) :
    deliver raises calls delivered = (delivered ++ calls, true) := by
  induction calls generalizing delivered with
  | nil => simp [deliver]
  | cons call rest ih =>
      rw [List.length_cons] at hquiet
      rw [deliver, if_neg (by simp [hquiet delivered.length (by omega)]), ih]
      · simp
      · intro n hn
        rw [List.length_append, List.length_singleton] at hn
        exact hquiet n (by omega)

theorem delivered_subset_due (saved : List SavedSearch) (h : Heap) (state : ℕ) :
    (runSuggestions find raises saved h state).delivered ⊆ due find saved (memory h state) := by
  rw [(runSuggestions_spec saved h state).1]
  exact (deliver_initial _ _).subset

end Refinement

/-! ## Deals -/

section Deals

variable {ν : Type u} {unicode : Unicode} {numerics : Numerics ν} {catalog : Catalog ν}
  {query : String} {k : ℤ}

/-- A deal is a product of the catalog whose score clears the threshold. -/
theorem mem_findDeals {p : Product} {score : ℚ}
    (h : (p, score) ∈ findDeals unicode numerics catalog query k) :
    p ∈ catalog.products ∧ dealScoreThreshold ≤ score ∧
      score = dealScore unicode numerics catalog.products catalog.medians p := by
  obtain ⟨⟨i, q, s⟩, hresult, heq⟩ := List.mem_map.1 h
  obtain ⟨rfl, rfl⟩ := Prod.mk.inj heq
  obtain ⟨hfound, hclears⟩ := List.mem_filter.1 hresult
  obtain ⟨hplace, hscore⟩ := mem_searchCatalog hfound
  exact ⟨List.mem_of_getElem? hplace, of_decide_eq_true hclears, hscore⟩

/-- A search for as many results as there are products finds every deal. -/
theorem findDeals_complete (hsorts : SortsPlaces numerics)
    (hk : (catalog.products.length : ℤ) ≤ k) {p : Product} (hp : p ∈ catalog.products)
    (hclears : dealScoreThreshold ≤
      dealScore unicode numerics catalog.products catalog.medians p) :
    (p, dealScore unicode numerics catalog.products catalog.medians p) ∈
      findDeals unicode numerics catalog query k := by
  obtain ⟨i, hi⟩ := List.mem_iff_getElem?.1 hp
  exact List.mem_map.2 ⟨_, List.mem_filter.2
    ⟨searchCatalog_complete hsorts hk hi, decide_eq_true hclears⟩, rfl⟩

/-- A search finds an item once. -/
theorem nodup_findDeals (hids : (catalog.products.map fun p => p.id).Nodup) :
    ((findDeals unicode numerics catalog query k).map fun deal => deal.1.id).Nodup := by
  have hindices := List.pairwise_map.1
    (@nodup_searchCatalog ν unicode numerics catalog query k (1 / 2))
  rw [findDeals, List.map_map]
  apply List.pairwise_map.2
  refine (hindices.sublist List.filter_sublist).imp_of_mem ?_
  rintro ⟨i, p, score⟩ ⟨j, q, score'⟩ hp hq hne
  have hi := (mem_searchCatalog (List.mem_filter.1 hp).1).1
  have hj := (mem_searchCatalog (List.mem_filter.1 hq).1).1
  -- One id at two places of the catalog would be a repetition.
  intro hid
  have hlt : i < (catalog.products.map fun p => p.id).length := by
    rw [List.length_map]
    exact (List.getElem?_eq_some_iff.1 hi).1
  apply hne
  apply (List.getElem?_inj hlt hids).1
  rw [List.getElem?_map, List.getElem?_map, hi, hj]
  exact congrArg some hid

end Deals

/-! ## A small world -/

/-- Numerics that rank in catalog order and fit a constant fair price. -/
def constant (fair : ℚ) : Numerics Unit where
  embed := fun _ => ()
  cosine := fun _ _ => 0
  argsort := fun keys => List.range keys.length
  log := fun _ => 0
  fit := fun _ _ _ => fair

theorem sortsPlaces_constant (fair : ℚ) : SortsPlaces (constant fair) :=
  fun keys => List.Perm.refl (List.range keys.length)

/-- Headphones of some price. -/
def headphones (id : String) (price : ℚ) : Product where
  id := id
  title := "Bose QuietComfort 45"
  brand := none
  category := "audio"
  price := price
  url := ""
  source := "Walmart"

end DealFinder.Worker
