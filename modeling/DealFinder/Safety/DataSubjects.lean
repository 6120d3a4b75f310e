/-
# Data subjects

`DataSubjectStore` keeps records for every user, and answers requests for access (`export`) and
for erasure (`delete`). The records are dictionaries that the callers share with the store: `add`
keeps a reference, and `export` gives away shallow copies. Both requests are audited.

What callers do to dictionaries of theirs is part of a run (`Call.write`). The store holds for a
user what was added since the last erasure, the audit log says how much that was at each request,
and what a caller does to an export is not seen by the store (`store_complies`).
-/

import DealFinder.Math.Dict
import DealFinder.Math.Machine
import Mathlib.Algebra.GroupWithZero.Nat
import Mathlib.Data.List.GetD
import Mathlib.Order.Nat

namespace DealFinder.Safety

open DealFinder.Math

universe u

variable {V : Type u}

/-- An entry of `AuditLog`, as the store records it. -/
structure AuditEntry where
  action : String
  userId : String
  count : ℕ
  deriving DecidableEq

/-- `DataSubjectStore`: the records are references to dictionaries. -/
structure DataSubjectStore where
  audit : List AuditEntry
  records : Dict String (List ℕ)

/-- The dictionaries of the callers and of the store, by reference, and the store. -/
structure Memory (V : Type u) where
  objects : List (Dict String V)
  store : DataSubjectStore

/-- What callers do: make a dictionary, assign to a key of one, or call the store. -/
inductive Call (V : Type u)
  | literal (d : Dict String V)
  | write (ref : ℕ) (key : String) (v : V)
  | add (userId : String) (ref : ℕ)
  | exportRecords (userId : String)
  | delete (userId : String)
  | count (userId : String)

inductive Reply
  | nothing
  | object (ref : ℕ)
  | objects (refs : List ℕ)
  | number (n : ℕ)
  deriving DecidableEq

namespace DataSubjectStore

/-- `self._records.get(user_id, [])`. -/
def recordsOf (s : DataSubjectStore) (userId : String) : List ℕ := s.records.getD userId []

/-- `self.audit.record`. -/
def record (s : DataSubjectStore) (action userId : String) (count : ℕ) : DataSubjectStore :=
  { s with audit := s.audit ++ [⟨action, userId, count⟩] }

def add (s : DataSubjectStore) (userId : String) (ref : ℕ) : DataSubjectStore :=
  { s with records := s.records.set userId (s.recordsOf userId ++ [ref]) }

def delete (s : DataSubjectStore) (userId : String) : ℕ × DataSubjectStore :=
  let removed := (s.recordsOf userId).length
  (removed, { s with records := s.records.eraseAll [userId] }.record "gdpr_delete" userId removed)

def count (s : DataSubjectStore) (userId : String) : ℕ := (s.recordsOf userId).length

end DataSubjectStore

namespace Memory

/-- The dictionary that a reference names. -/
def contents (m : Memory V) (ref : ℕ) : Dict String V := m.objects.getD ref .empty

/-- `export`: a new dictionary for each record, with its keys and values. -/
def exportRecords (m : Memory V) (userId : String) : List ℕ × Memory V :=
  let records := (m.store.recordsOf userId).map m.contents
  (List.range' m.objects.length records.length,
    ⟨m.objects ++ records, m.store.record "gdpr_export" userId records.length⟩)

def step (m : Memory V) : Call V → Reply × Memory V
  | .literal d => (.object m.objects.length, { m with objects := m.objects ++ [d] })
  | .write ref key v =>
      (.nothing, { m with objects := m.objects.set ref ((m.contents ref).set key v) })
  | .add userId ref => (.nothing, { m with store := m.store.add userId ref })
  | .exportRecords userId => (.objects (m.exportRecords userId).1, (m.exportRecords userId).2)
  | .delete userId => (.number (m.store.delete userId).1,
      { m with store := (m.store.delete userId).2 })
  | .count userId => (.number (m.store.count userId), m)

end Memory

/-- The store and its callers. -/
def subjects : Machine (Memory V) (Call V) Reply := ⟨Memory.step⟩

/-- No dictionary, and `DataSubjectStore()`. -/
def noMemory : Memory V := ⟨[], [], .empty⟩

/-! ## What the calls say -/

def heldStep (userId : String) (held : List ℕ) : Call V → List ℕ
  | .add user ref => if user = userId then held ++ [ref] else held
  | .delete user => if user = userId then [] else held
  | _ => held

/-- What was added for a user since the last erasure. -/
def heldBy (userId : String) (calls : List (Call V)) : List ℕ :=
  calls.foldl (heldStep userId) []

/-- What a call leaves in the audit log. -/
def entryOf (past : List (Call V)) : Call V → Option AuditEntry
  | .exportRecords user => some ⟨"gdpr_export", user, (heldBy user past).length⟩
  | .delete user => some ⟨"gdpr_delete", user, (heldBy user past).length⟩
  | _ => none

/-- The entries of some calls, behind others. -/
def trailFrom : List (Call V) → List (Call V) → List AuditEntry
  | _, [] => []
  | past, call :: rest => (entryOf past call).toList ++ trailFrom (past ++ [call]) rest

def addsOf (userId : String) (calls : List (Call V)) : ℕ :=
  calls.countP fun call => match call with
    | .add user _ => user = userId
    | _ => false

/-- How many records the log says were erased for a user. -/
def erasedOf (userId : String) (audit : List AuditEntry) : ℕ :=
  ((audit.filter fun entry => entry.action = "gdpr_delete" ∧ entry.userId = userId).map
    (·.count)).sum

/-- The objects that a call names. -/
def Call.refs : Call V → List ℕ
  | .write ref _ _ => [ref]
  | .add _ ref => [ref]
  | _ => []

/-- A call names objects that there are. -/
def Known (m : Memory V) (call : Call V) : Prop := ∀ ref ∈ call.refs, ref < m.objects.length

instance (m : Memory V) (call : Call V) : Decidable (Known m call) :=
  inferInstanceAs (Decidable (∀ ref ∈ call.refs, ref < m.objects.length))

/-- What an export after some calls gives: the contents of the copies. -/
def exported (past : List (Call V)) (userId : String) : List (Dict String V) :=
  let after := (subjects.run noMemory past).exportRecords userId
  after.1.map after.2.contents

/-- A call that concerns a user or one of some objects: it adds or erases for the user, or it
assigns to an object. -/
def Call.Touches (userId : String) (held : List ℕ) : Call V → Prop
  | .add user _ => user = userId
  | .delete user => user = userId
  | .write ref _ _ => ref ∈ held
  | _ => False

/-! ## One call -/

section Step

variable {m : Memory V} {call : Call V} {userId : String} {ref : ℕ}

theorem contents_more (hlt : ref < m.objects.length) (more : List (Dict String V))
    (store : DataSubjectStore) :
    Memory.contents ⟨m.objects ++ more, store⟩ ref = m.contents ref :=
  List.getD_append _ _ _ _ hlt

theorem length_step : m.objects.length ≤ (m.step call).2.objects.length := by
  cases call with
  | literal d =>
      change _ ≤ (m.objects ++ [d]).length
      simp
  | write ref key v => exact (List.length_set).ge
  | exportRecords user =>
      change _ ≤ (m.objects ++ (m.store.recordsOf user).map m.contents).length
      simp
  | add user ref | delete user | count user => exact le_rfl

/-- A dictionary changes by assignments to it only. -/
theorem contents_step (hlt : ref < m.objects.length) (hwrite : ∀ key v, call ≠ .write ref key v) :
    (m.step call).2.contents ref = m.contents ref := by
  cases call with
  | literal d => exact contents_more hlt _ _
  | write other key v =>
      have hne : other ≠ ref := by
        rintro rfl
        exact hwrite key v rfl
      change (m.objects.set other _).getD ref .empty = _
      rw [List.getD_eq_getElem?_getD, List.getElem?_set_ne hne, Memory.contents,
        List.getD_eq_getElem?_getD]
  | exportRecords user => exact contents_more hlt _ _
  | add user ref | delete user | count user => rfl

theorem recordsOf_add (s : DataSubjectStore) (user : String) (ref : ℕ) :
    (s.add user ref).recordsOf userId =
      if user = userId then s.recordsOf userId ++ [ref] else s.recordsOf userId := by
  rw [DataSubjectStore.recordsOf, DataSubjectStore.add, Dict.getD, Dict.get?_set]
  split_ifs with h₁ h₂ h₂
  · rw [h₁]
    rfl
  · exact absurd h₁.symm h₂
  · exact absurd h₂.symm h₁
  · rfl

theorem recordsOf_delete (s : DataSubjectStore) (user : String) :
    (s.delete user).2.recordsOf userId = if user = userId then [] else s.recordsOf userId := by
  change ((s.records.eraseAll [user]).get? userId).getD [] = _
  rw [Dict.get?_eraseAll]
  by_cases h : user = userId
  · rw [if_pos h, if_pos (List.mem_singleton.2 h.symm)]
    rfl
  · rw [if_neg h, if_neg fun hmem => h (List.mem_singleton.1 hmem).symm]
    rfl

theorem recordsOf_step :
    (m.step call).2.store.recordsOf userId = heldStep userId (m.store.recordsOf userId) call := by
  cases call with
  | add user ref => exact recordsOf_add m.store user ref
  | delete user => exact recordsOf_delete m.store user
  | literal d | write ref key v | exportRecords user | count user => rfl

end Step

/-! ## Runs -/

section Runs

variable {past middle calls : List (Call V)} {call : Call V} {userId : String} {ref : ℕ}

theorem heldBy_concat : heldBy userId (past ++ [call]) = heldStep userId (heldBy userId past) call := by
  rw [heldBy, List.foldl_append]
  rfl

theorem trailFrom_concat (before : List (Call V)) : trailFrom before (past ++ [call]) =
    trailFrom before past ++ (entryOf (before ++ past) call).toList := by
  induction past generalizing before with
  | nil => simp [trailFrom]
  | cons first rest ih =>
      rw [List.cons_append, trailFrom, ih, trailFrom, List.append_assoc, List.append_assoc]
      rfl

theorem recordsOf_run (calls : List (Call V)) (userId : String) :
    (subjects.run noMemory calls).store.recordsOf userId = heldBy userId calls := by
  refine Machine.run_history (P := fun past (m : Memory V) => m.store.recordsOf userId = heldBy userId past)
    rfl (fun past call hpast => ?_) calls
  rw [heldBy_concat, ← hpast]
  exact recordsOf_step

theorem audit_run (calls : List (Call V)) :
    (subjects.run noMemory calls).store.audit = trailFrom [] calls := by
  refine Machine.run_history (P := fun past (m : Memory V) => m.store.audit = trailFrom [] past)
    rfl (fun past call hpast => ?_) calls
  have hheld := recordsOf_run past
  rw [trailFrom_concat, ← hpast]
  cases call with
  | exportRecords user =>
      change _ ++ [AuditEntry.mk _ _ _] = _ ++ [AuditEntry.mk _ _ _]
      rw [List.length_map, hheld, List.nil_append]
  | delete user =>
      change _ ++ [AuditEntry.mk _ _ _] = _ ++ [AuditEntry.mk _ _ _]
      rw [hheld, List.nil_append]
  | literal d | write ref key v | add user ref | count user => exact (List.append_nil _).symm

theorem contents_run {m : Memory V} (hlt : ref < m.objects.length)
    (hwrite : ∀ call ∈ middle, ∀ key v, call ≠ .write ref key v) :
    (subjects.run m middle).contents ref = m.contents ref := by
  induction middle generalizing m with
  | nil => rfl
  | cons call rest ih =>
      have hrest := ih (m := (m.step call).2) (hlt.trans_le length_step)
        fun call' hmem => hwrite call' (List.mem_cons_of_mem _ hmem)
      exact hrest.trans (contents_step hlt (hwrite call List.mem_cons_self))

/-- The store names dictionaries that there are. -/
theorem held_lt (hknown : subjects.Along Known noMemory calls) :
    ∀ ref ∈ heldBy userId calls, ref < (subjects.run noMemory calls).objects.length := by
  refine Machine.run_induction (P := fun past (m : Memory V) => ∀ ref ∈ heldBy userId past,
    ref < m.objects.length) (List.forall_mem_nil _) (fun past call hpast hguard ref hmem => ?_)
    calls hknown
  rw [heldBy_concat] at hmem
  have hmore : (subjects.run noMemory past).objects.length ≤
      ((subjects.run noMemory past).step call).2.objects.length := length_step
  refine lt_of_lt_of_le ?_ hmore
  cases call with
  | add user other =>
      rw [heldStep] at hmem
      split_ifs at hmem
      · rcases List.mem_append.1 hmem with hold | hnew
        · exact hpast ref hold
        · exact hguard ref hnew
      · exact hpast ref hmem
  | delete user =>
      rw [heldStep] at hmem
      split_ifs at hmem
      · exact absurd hmem List.not_mem_nil
      · exact hpast ref hmem
  | literal d | write other key v | exportRecords user | count user => exact hpast ref hmem

/-- The copies of an export, by reference. -/
theorem contents_copies (objects records : List (Dict String V)) (store : DataSubjectStore) :
    (List.range' objects.length records.length).map (Memory.contents ⟨objects ++ records, store⟩) =
      records := by
  refine List.ext_getElem (by simp) fun i hi hi' => ?_
  rw [List.getElem_map, List.getElem_range', Memory.contents, List.getD_eq_getElem?_getD,
    Nat.one_mul, List.getElem?_append_right (Nat.le_add_right _ i), Nat.add_sub_cancel_left,
    List.getElem?_eq_getElem hi']
  rfl

theorem exported_eq (past : List (Call V)) (userId : String) : exported past userId =
    (heldBy userId past).map (subjects.run noMemory past).contents := by
  rw [← recordsOf_run past userId]
  exact contents_copies _ _ _

theorem heldBy_untouched {held : List ℕ} (past : List (Call V))
    (hcalm : ∀ call ∈ middle, ¬ call.Touches userId held) :
    heldBy userId (past ++ middle) = heldBy userId past := by
  induction middle generalizing past with
  | nil => rw [List.append_nil]
  | cons call rest ih =>
      have hrest := ih (past ++ [call]) fun call' hmem => hcalm call' (List.mem_cons_of_mem _ hmem)
      rw [List.append_assoc, List.singleton_append] at hrest
      rw [hrest, heldBy_concat]
      have hcall := hcalm call List.mem_cons_self
      cases call with
      | add user ref => exact if_neg hcall
      | delete user => exact if_neg hcall
      | literal d | write ref key v | exportRecords user | count user => rfl

theorem erasedOf_append (first second : List AuditEntry) :
    erasedOf userId (first ++ second) = erasedOf userId first + erasedOf userId second := by
  rw [erasedOf, List.filter_append, List.map_append, List.sum_append]
  rfl

/-- What was added is held, or was erased. -/
theorem balance (calls : List (Call V)) (userId : String) : addsOf userId calls =
    (heldBy userId calls).length + erasedOf userId (trailFrom [] calls) := by
  induction calls using List.reverseRecOn with
  | nil => rfl
  | append_singleton past call ih =>
      rw [heldBy_concat, trailFrom_concat, List.nil_append, erasedOf_append, addsOf,
        List.countP_append]
      change addsOf userId past + _ = _
      rw [ih]
      cases call with
      | add user ref =>
          by_cases huser : user = userId
          · simp [heldStep, entryOf, erasedOf, huser]
            omega
          · simp [heldStep, entryOf, erasedOf, huser]
      | delete user =>
          by_cases huser : user = userId
          · simp [heldStep, entryOf, erasedOf, huser]
            omega
          · simp [heldStep, entryOf, erasedOf, huser]
      | exportRecords user => simp [heldStep, entryOf, erasedOf]
      | literal d | write ref key v | count user => simp [heldStep, entryOf, erasedOf]

end Runs

/-- What the store keeps to in a run. -/
structure Complies (calls : List (Call V)) : Prop where
  held : ∀ userId, (subjects.run noMemory calls).store.recordsOf userId = heldBy userId calls
  audit : (subjects.run noMemory calls).store.audit = trailFrom [] calls
  balance : ∀ userId, addsOf userId calls = (heldBy userId calls).length +
    erasedOf userId (subjects.run noMemory calls).store.audit
  copies : ∀ past userId middle rest, calls = past ++ .exportRecords userId :: (middle ++ rest) →
    ∃ refs, subjects.answerAfter noMemory past (.exportRecords userId) = .objects refs ∧
      (∀ ref ∈ refs, ∀ user, ref ∉ heldBy user past) ∧
      ((∀ ref ∈ refs, ∀ call ∈ middle, ∀ key v, call ≠ .write ref key v) →
        refs.map (subjects.run noMemory (past ++ .exportRecords userId :: middle)).contents =
          (heldBy userId past).map (subjects.run noMemory past).contents)
  detached : ∀ past userId middle rest, calls = past ++ (middle ++ .exportRecords userId :: rest) →
    (∀ call ∈ middle, ¬ call.Touches userId (heldBy userId past)) →
      exported (past ++ middle) userId = exported past userId

/-- **The store**, in every run of calls that name dictionaries there are: it holds what was added
since the last erasure, the log accounts for the rest, an export is of new dictionaries, and what
becomes of them changes no later export. -/
theorem store_complies (calls : List (Call V)) (hknown : subjects.Along Known noMemory calls) :
    Complies calls := by
  refine ⟨recordsOf_run calls, audit_run calls, fun userId => ?_, ?_, ?_⟩
  · rw [audit_run]
    exact balance calls userId
  · rintro past userId middle rest rfl
    refine ⟨_, rfl, fun ref hmem user hheld => ?_, fun hwrite => ?_⟩
    · have hlt := held_lt hknown.left ref hheld
      have hge := (List.mem_range'_1.1 hmem).1
      omega
    · rw [← exported_eq, Machine.run_append, Machine.run_cons]
      refine List.map_congr_left fun ref hmem => contents_run ?_ fun call hcall key v => ?_
      · have hnew := (List.mem_range'_1.1 hmem).2
        change ref < (_ ++ _ : List (Dict String V)).length
        rw [List.length_append]
        exact hnew
      · exact hwrite ref hmem call hcall key v
  · rintro past userId middle rest rfl hcalm
    rw [exported_eq, exported_eq, heldBy_untouched past hcalm, Machine.run_append]
    refine List.map_congr_left fun ref hmem => contents_run (held_lt hknown.left ref hmem) ?_
    rintro call hcall key v rfl
    exact hcalm _ hcall hmem

/-- Two users add a record. The first one's export is tampered with, before another one and an
erasure. -/
def tampering : List (Call String) :=
  [.literal (.ofPairs [("saved_search", "external ssd 1tb")]), .add "u1" 0,
    .literal (.ofPairs [("saved_search", "gaming laptop")]), .add "u2" 1,
    .exportRecords "u1", .write 2 "saved_search" "tampered", .exportRecords "u1", .delete "u1"]

theorem store_complies_tampering : Complies tampering := store_complies tampering (by decide)

end DealFinder.Safety
