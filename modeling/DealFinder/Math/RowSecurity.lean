/-
# Row security

A policy says which rows a statement sees (`USING`) and which rows it may leave
(`WITH CHECK`). A query returns the seen rows, a deletion removes seen rows, and an
insertion with a conflict clause needs a row that passes the check, and on conflict
an old row that is seen.

A policy owns keys of a table when it decides a row by its key. The owner of a key may
insert and update its row (`Owns.upsert_of_pos`), and a deletion leaves the rows that
another owner sees (`seen_deleteFrom_of_disjoint`).
-/

import DealFinder.Math.Dict

namespace DealFinder.Math

universe u v

/-- A policy on rows. -/
structure Policy (ρ : Type u) where
  /-- `USING`. -/
  sees : ρ → Bool
  /-- `WITH CHECK`. -/
  checks : ρ → Bool

namespace Policy

/-- A policy with one expression in both places. -/
def same {ρ : Type u} (p : ρ → Bool) : Policy ρ := ⟨p, p⟩

/-! ## Statements on a list of rows -/

section Rows

variable {ρ : Type u} (policy : Policy ρ)

/-- `SELECT`. -/
def select (rows : List ρ) : List ρ := rows.filter policy.sees

/-- `INSERT`, unless the check fails. -/
def insert (row : ρ) (rows : List ρ) : Option (List ρ) :=
  if policy.checks row then some (rows ++ [row]) else none

/-- The rows a `DELETE` removes. -/
def gone (test : ρ → Bool) (row : ρ) : Bool := policy.sees row && test row

/-- `DELETE ... WHERE`: the number of rows removed, and the others. -/
def delete (test : ρ → Bool) (rows : List ρ) : ℕ × List ρ :=
  ((rows.filter (policy.gone test)).length, rows.filter fun row => !policy.gone test row)

end Rows

/-! ## Statements on a table with a key -/

section Keyed

variable {κ : Type u} {ν : Type v} (policy : Policy (κ × ν))

/-- The rows seen. -/
def seen (table : Dict κ ν) : Dict κ ν := table.filter fun k row => policy.sees (k, row)

/-- `DELETE ... WHERE`: the number of rows removed, and the others. -/
def deleteFrom (test : κ → ν → Bool) (table : Dict κ ν) : ℕ × Dict κ ν :=
  ((table.filter fun k row => policy.gone (fun row => test row.1 row.2) (k, row)).size,
    table.filter fun k row => !policy.gone (fun row => test row.1 row.2) (k, row))

/-- `INSERT ... ON CONFLICT (key) DO UPDATE`: the row left and the table, unless a check
fails or the old row is not seen. -/
def upsert [DecidableEq κ] (key : κ) (row : ν) (onConflict : ν → ν) (table : Dict κ ν) :
    Option (ν × Dict κ ν) :=
  if policy.checks (key, row) then
    match table.get? key with
    | none => some (row, table.set key row)
    | some old =>
        if policy.sees (key, old) && policy.checks (key, onConflict old) then
          some (onConflict old, table.set key (onConflict old))
        else none
  else none

end Keyed

/-! ## Rules -/

section Rules

variable {ρ : Type u} {policy other : Policy ρ} {test : ρ → Bool} {rows rows' : List ρ} {row : ρ}

/-- No row is seen under both policies. -/
def Disjoint (policy other : Policy ρ) : Prop :=
  ∀ row, policy.sees row = true → other.sees row = false

/-- A deletion counts among the rows it sees. -/
theorem delete_count :
    (policy.delete test rows).1 = ((policy.select rows).filter test).length := by
  simp only [delete, select, List.filter_filter]
  exact congrArg List.length (List.filter_congr fun row _ => Bool.and_comm _ _)

/-- Of the rows it sees, a deletion leaves those that fail the test. -/
theorem select_delete :
    policy.select (policy.delete test rows).2 =
      (policy.select rows).filter fun row => !test row := by
  simp only [delete, select, List.filter_filter]
  apply List.filter_congr
  intro row _
  rw [gone]
  cases policy.sees row <;> simp

/-- A deletion leaves the rows of a disjoint policy. -/
theorem select_delete_of_disjoint (h : other.Disjoint policy) :
    other.select (policy.delete test rows).2 = other.select rows := by
  simp only [delete, select, List.filter_filter]
  apply List.filter_congr
  intro row _
  cases hsees : other.sees row with
  | false => rfl
  | true => simp [gone, h row hsees]

/-- The rows a `DELETE` leaves are those that it does not remove. -/
theorem delete_eq [DecidableEq ρ] :
    (policy.delete test rows).2 = rows.filter fun row => row ∉ rows.filter (policy.gone test) := by
  apply List.filter_congr
  intro row hrow
  cases hgone : policy.gone test row <;> simp [hrow, hgone]

end Rules

section KeyedRules

variable {κ : Type u} {ν : Type v} {policy other : Policy (κ × ν)} {owns owned : κ → Bool}
variable {test : κ → ν → Bool} {table : Dict κ ν}

/-- A deletion counts among the rows it sees. -/
theorem deleteFrom_count :
    (policy.deleteFrom test table).1 = ((policy.seen table).filter test).size := by
  rw [seen, Dict.filter_filter]
  exact congrArg List.length (List.filter_congr fun entry _ => Bool.and_comm _ _)

/-- Of the rows it sees, a deletion leaves those that fail the test. -/
theorem seen_deleteFrom :
    policy.seen (policy.deleteFrom test table).2 =
      (policy.seen table).filter fun k row => !test k row := by
  rw [seen, seen, deleteFrom, Dict.filter_filter, Dict.filter_filter]
  refine Dict.eq_of_entries (List.filter_congr fun entry _ => ?_)
  simp only [gone]
  cases policy.sees (entry.1, entry.2) <;> simp

/-- A deletion leaves the rows of a disjoint policy. -/
theorem seen_deleteFrom_of_disjoint (h : other.Disjoint policy) :
    other.seen (policy.deleteFrom test table).2 = other.seen table := by
  rw [seen, seen, deleteFrom, Dict.filter_filter]
  refine Dict.eq_of_entries (List.filter_congr fun entry _ => ?_)
  cases hsees : other.sees (entry.1, entry.2) with
  | false => simp only [hsees, Bool.false_and]
  | true => simp [gone, h (entry.1, entry.2) hsees]

/-- The policy decides a row by its key, in both places. -/
def Owns (policy : Policy (κ × ν)) (owns : κ → Bool) : Prop :=
  ∀ k row, policy.sees (k, row) = owns k ∧ policy.checks (k, row) = owns k

theorem owns_same (owns : κ → Bool) :
    (same fun row : κ × ν => owns row.1).Owns owns := fun _ _ => ⟨rfl, rfl⟩

theorem Owns.seen_eq (h : policy.Owns owns) (table : Dict κ ν) :
    policy.seen table = table.filter fun k _ => owns k := by
  simp only [seen, (h _ _).1]

theorem Owns.disjoint (h : policy.Owns owns) (h' : other.Owns owned)
    (hkeys : ∀ k, owns k = true → owned k = false) : policy.Disjoint other := by
  intro row hsees
  rw [(h row.1 row.2).1] at hsees
  rw [(h' row.1 row.2).1, hkeys row.1 hsees]

/-- The keys of the rows a `DELETE` removes. -/
def goneKeys (policy : Policy (κ × ν)) (test : κ → ν → Bool) (table : Dict κ ν) : List κ :=
  (table.filter fun k row => policy.gone (fun row => test row.1 row.2) (k, row)).keys

variable [DecidableEq κ] {key : κ} {row : ν} {onConflict : ν → ν}

/-- A `DELETE` erases the keys of the rows that it removes. -/
theorem deleteFrom_eq :
    (policy.deleteFrom test table).2 = table.eraseAll (policy.goneKeys test table) := by
  refine Dict.eq_of_entries (List.filter_congr fun entry hentry => ?_)
  rw [Bool.eq_iff_iff, Bool.not_eq_true', decide_eq_true_iff, goneKeys, ← Dict.mem_def,
    Dict.mem_iff_exists_entry, not_exists]
  constructor
  · intro hkept row hrow
    obtain ⟨hstored, hgone⟩ := Dict.mem_entries_filter.1 hrow
    obtain rfl := Dict.value_unique hstored hentry
    exact absurd (hkept.symm.trans hgone) Bool.false_ne_true
  · intro hnone
    cases hgone : policy.gone (fun row => test row.1 row.2) (entry.1, entry.2) with
    | false => rfl
    | true => exact absurd (Dict.mem_entries_filter.2 ⟨hentry, hgone⟩) (hnone entry.2)

/-- An `INSERT ... ON CONFLICT DO UPDATE` assigns the row that it leaves. -/
theorem upsert_eq_some {row' : ν} {after : Dict κ ν}
    (h : policy.upsert key row onConflict table = some (row', after)) :
    after = table.set key row' := by
  rw [upsert] at h
  split at h
  · split at h
    · cases h
      rfl
    · split at h
      · cases h
        rfl
      · cases h
  · cases h

/-- The row an `INSERT ... ON CONFLICT DO UPDATE` leaves. -/
def left (row : ν) (onConflict : ν → ν) (old : Option ν) : ν := old.elim row onConflict

/-- The owner of a key inserts or updates its row. -/
theorem Owns.upsert_of_pos (h : policy.Owns owns) (hkey : owns key = true) :
    policy.upsert key row onConflict table =
      some (left row onConflict (table.get? key),
        table.set key (left row onConflict (table.get? key))) := by
  rw [upsert, if_pos ((h key row).2.trans hkey)]
  cases table.get? key with
  | none => rfl
  | some old =>
      simp only [(h key old).1, (h key (onConflict old)).2, hkey, Bool.and_self, if_true]
      rfl

end KeyedRules

end Policy

end DealFinder.Math
