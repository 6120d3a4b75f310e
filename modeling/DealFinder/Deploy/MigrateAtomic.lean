/-
# What a migration run leaves behind

`replay` applies files one after the other, each with its row in the log, and is
what a run is compared with. The loop of `apply` replays the pending files inside
the one transaction that reading the log has opened. A run in which no file
raises commits the whole replay. A run in which a file raises rolls back every
file before it as well (`apply_of_error`), so it is atomic per file only when
there was none before it (`atomicPerFile_iff`).
-/

import DealFinder.Deploy.Migrate
import Mathlib.Data.Finset.Lattice.Lemmas

namespace DealFinder.Deploy.Migrate

open DealFinder.Math

universe u v

variable {D : Type u} {E : Type v} {sql : String → D → Except E D}

/-- Apply files in order, each with its row in the log. -/
def replay (sql : String → D → Except E D) : List String → Db D → Except E (Db D)
  | [], db => .ok db
  | name :: rest, db =>
      match sql name db.data with
      | .ok data => replay sql rest ⟨db.log.map (insert name), data⟩
      | .error e => .error e

/-! ## The files of a run -/

theorem files_nodup (dir : Directory) : (files dir).Nodup :=
  ((List.perm_insertionSort _ _).nodup_iff).2 (dir.nodup.filter _)

theorem not_mem_log_of_pending {dir : Directory} {db : Db D} {name : String}
    (h : name ∈ pending dir db) : name ∉ db.log.getD ∅ := by
  simpa using (List.mem_filter.1 h).2

/-- A replay adds exactly the rows of its files. -/
theorem replay_log {names : List String} {db final : Db D} {rows : Finset String}
    (hlog : db.log = some rows) (h : replay sql names db = .ok final) :
    final.log = some (rows ∪ names.toFinset) := by
  induction names generalizing db rows with
  | nil =>
      cases h
      rw [hlog, List.toFinset_nil, Finset.union_empty]
  | cons name rest ih =>
      cases hsql : sql name db.data with
      | error e => simp [replay, hsql] at h
      | ok data =>
          simp only [replay, hsql, hlog, Option.map_some] at h
          rw [ih rfl h, List.toFinset_cons, Finset.insert_union, Finset.union_insert]

/-! ## The loop -/

section Loop

variable {done rows : Finset String} {ran : List String} {base work : Db D} {name : String}

theorem applyFile_of_done (hdone : name ∈ done) (c : Conn (Db D) Unit) :
    applyFile sql done ran name c = (.ok ran, c) := by
  rw [applyFile, if_pos hdone]
  rfl

/-- A file that succeeds is applied to the open work, with its row. -/
theorem applyFile_of_ok (hnew : name ∉ done) (hlog : work.log = some rows) (hrow : name ∉ rows)
    {data : D} (hsql : sql name work.data = .ok data) :
    applyFile sql done ran name ⟨base, .active work, ()⟩ =
      (.ok (ran ++ [name]), ⟨base, .active ⟨work.log.map (insert name), data⟩, ()⟩) := by
  have hrun : runSql sql name work = .ok ((), { work with data }) := by
    rw [runSql, hsql]
  have hinsert : insertLog name { work with data } =
      (.ok ((), ⟨some (insert name rows), data⟩) : Except (MigrateError E) _) := by
    simp only [insertLog, hlog, if_neg hrow]
  have hblock : Session.transaction (do
        Session.execute (runSql sql name)
        Session.execute (insertLog name)) ⟨base, .active work, ()⟩ =
      (.ok (), ⟨base, .active ⟨some (insert name rows), data⟩, ()⟩) := by
    apply Session.transaction_active_ok
    rw [Effect.bind_of_ok (Session.execute_active hrun)]
    exact Session.execute_active hinsert
  rw [applyFile, if_neg hnew, hlog, Option.map_some]
  exact Effect.bind_of_ok hblock

/-- A file that raises is undone, and the exception goes on. -/
theorem applyFile_of_error (hnew : name ∉ done) {e : E} (hsql : sql name work.data = .error e) :
    applyFile sql done ran name ⟨base, .active work, ()⟩ =
      (.error (.raised (.sql e)), ⟨base, .active work, ()⟩) := by
  have hrun : runSql sql name work = .error (.sql e) := by
    rw [runSql, hsql]
  have hblock : Session.transaction (do
        Session.execute (runSql sql name)
        Session.execute (insertLog name)) ⟨base, .active work, ()⟩ =
      (.error (.raised (.sql e)), ⟨base, .active work, ()⟩) := by
    rw [Session.transaction_active_error
      (Effect.bind_of_error (Session.execute_active_error hrun))]
  rw [applyFile, if_neg hnew]
  exact Effect.bind_of_error hblock

/-- The rows that the files still to come need free are free. -/
def RowsFree (done rows : Finset String) (names : List String) : Prop :=
  names.Nodup ∧ ∀ name ∈ names, name ∉ done → name ∉ rows

theorem RowsFree.tail {rest : List String} (h : RowsFree done rows (name :: rest)) :
    RowsFree done (insert name rows) rest := by
  obtain ⟨hnodup, hfree⟩ := h
  obtain ⟨hname, hrest⟩ := List.nodup_cons.1 hnodup
  refine ⟨hrest, fun other hother hnew => ?_⟩
  rw [Finset.mem_insert, not_or]
  exact ⟨fun heq => hname (heq ▸ hother), hfree other (List.mem_cons_of_mem _ hother) hnew⟩

theorem RowsFree.tail_of_done {rest : List String} (h : RowsFree done rows (name :: rest)) :
    RowsFree done rows rest :=
  ⟨(List.nodup_cons.1 h.1).2, fun other hother => h.2 other (List.mem_cons_of_mem _ hother)⟩

/-- Without a failure the loop replays its files in the open transaction. -/
theorem loop_of_ok (ran : List String) (base : Db D) {names : List String} {final : Db D}
    (hlog : work.log = some rows)
    (hfree : RowsFree done rows names)
    (h : replay sql (names.filter fun name => decide (name ∉ done)) work = .ok final) :
    names.foldlM (applyFile sql done) ran ⟨base, .active work, ()⟩ =
      (.ok (ran ++ names.filter fun name => decide (name ∉ done)),
        ⟨base, .active final, ()⟩) := by
  induction names generalizing ran work rows with
  | nil =>
      cases h
      simp only [List.foldlM_nil, List.filter_nil, List.append_nil]
      rfl
  | cons name rest ih =>
      rw [List.foldlM_cons]
      by_cases hdone : name ∈ done
      · rw [List.filter_cons_of_neg (by simpa using hdone)] at h ⊢
        rw [Effect.bind_of_ok (applyFile_of_done hdone _)]
        exact ih ran hlog hfree.tail_of_done h
      · rw [List.filter_cons_of_pos (by simpa using hdone)] at h ⊢
        cases hsql : sql name work.data with
        | error e => simp [replay, hsql] at h
        | ok data =>
            simp only [replay, hsql] at h
            have hrow := hfree.2 name (by simp) hdone
            rw [Effect.bind_of_ok (applyFile_of_ok hdone hlog hrow hsql),
              ih _ (by rw [hlog, Option.map_some]) hfree.tail h]
            simp

/-- A failure ends the loop after the files before it. -/
theorem loop_of_error (ran : List String) (base : Db D) {names before after : List String}
    {mid : Db D} {e : E}
    (hlog : work.log = some rows) (hfree : RowsFree done rows names)
    (hsplit : (names.filter fun name => decide (name ∉ done)) = before ++ name :: after)
    (hbefore : replay sql before work = .ok mid) (hsql : sql name mid.data = .error e) :
    names.foldlM (applyFile sql done) ran ⟨base, .active work, ()⟩ =
      (.error (.raised (.sql e)), ⟨base, .active mid, ()⟩) := by
  induction names generalizing ran work rows before with
  | nil => simp at hsplit
  | cons first rest ih =>
      rw [List.foldlM_cons]
      by_cases hdone : first ∈ done
      · rw [List.filter_cons_of_neg (by simpa using hdone)] at hsplit
        rw [Effect.bind_of_ok (applyFile_of_done hdone _)]
        exact ih ran hlog hfree.tail_of_done hsplit hbefore
      · rw [List.filter_cons_of_pos (by simpa using hdone)] at hsplit
        cases before with
        | nil =>
            obtain ⟨rfl, -⟩ := List.cons.inj hsplit
            cases hbefore
            exact Effect.bind_of_error (applyFile_of_error hdone hsql)
        | cons head before =>
            obtain ⟨rfl, hrest⟩ := List.cons.inj hsplit
            cases hfirst : sql first work.data with
            | error e => simp [replay, hfirst] at hbefore
            | ok data =>
                simp only [replay, hfirst] at hbefore
                have hrow := hfree.2 first (by simp) hdone
                rw [Effect.bind_of_ok (applyFile_of_ok hdone hlog hrow hfirst)]
                exact ih _ (by rw [hlog, Option.map_some]) hfree.tail hrest hbefore

end Loop

/-! ## The run -/

section Run

variable {dir : Directory} {db : Db D}

/-- Reading the log leaves the loop inside a transaction. -/
theorem applyBody_eq :
    applyBody dir sql ⟨db, .idle, ()⟩ =
      (files dir).foldlM (applyFile sql (db.log.getD ∅)) []
        ⟨bootstrap db, .active (bootstrap db), ()⟩ := by
  have happlied : (applied (bootstrap db) : Except (MigrateError E) _) =
      .ok (db.log.getD ∅, bootstrap db) := rfl
  rw [applyBody, Effect.bind_of_ok (Session.execute_idle rfl),
    Effect.bind_of_ok Session.commit_active,
    Effect.bind_of_ok (Session.execute_idle happlied)]

theorem rowsFree_files : RowsFree (db.log.getD ∅) (db.log.getD ∅) (files dir) :=
  ⟨files_nodup dir, fun _ _ hnew => hnew⟩

/-- A run in which no file raises commits the replay of the pending files. -/
theorem apply_of_ok {final : Db D}
    (h : replay sql (pending dir db) (bootstrap db) = .ok final) :
    apply dir sql db = (.ok (pending dir db), final) := by
  have hloop := loop_of_ok [] (bootstrap db) rfl rowsFree_files h
  rw [← applyBody_eq] at hloop
  simp only [apply, Session.connect_of_ok hloop, List.nil_append]
  rfl

/-- A run in which a file raises commits nothing but the log table. -/
theorem apply_of_error {before after : List String} {name : String} {mid : Db D} {e : E}
    (hsplit : pending dir db = before ++ name :: after)
    (hbefore : replay sql before (bootstrap db) = .ok mid) (hsql : sql name mid.data = .error e) :
    apply dir sql db = (.error (.raised (.sql e)), bootstrap db) := by
  have hloop := loop_of_error [] (bootstrap db) rfl rowsFree_files hsplit
    hbefore hsql
  rw [← applyBody_eq] at hloop
  simp only [apply, Session.connect_of_error hloop]

/-- After a run that applied every file, nothing is pending. -/
theorem pending_of_applied {final : Db D}
    (hlog : final.log = some (db.log.getD ∅ ∪ (pending dir db).toFinset)) :
    pending dir final = [] := by
  rw [pending, List.filter_eq_nil_iff]
  intro name hname
  by_cases hdone : name ∈ db.log.getD ∅
  · simp [hlog, hdone]
  · have hpending : name ∈ pending dir db :=
      List.mem_filter.2 ⟨hname, by simpa using hdone⟩
    simp [hlog, hpending]

/-- After such a run the app finds the schema ready. -/
theorem schemaReady_of_ok {final : Db D}
    (h : replay sql (pending dir db) (bootstrap db) = .ok final) :
    schemaReady dir final = true := by
  rw [schemaReady, pending_of_applied (replay_log rfl h)]
  rfl

/-- **Atomic per file.** When a pending file raises after the earlier ones
succeeded, the run raises and leaves the earlier ones applied, each with its row,
and nothing else. When none raises, the run applies each of them once, every file
has its row, and a second run applies nothing. -/
structure AtomicPerFile (dir : Directory) (sql : String → D → Except E D) (db : Db D) :
    Prop where
  failure : ∀ before name after mid e, pending dir db = before ++ name :: after →
    replay sql before (bootstrap db) = .ok mid → sql name mid.data = .error e →
    apply dir sql db = (.error (.raised (.sql e)), mid)
  success : ∀ final, replay sql (pending dir db) (bootstrap db) = .ok final →
    apply dir sql db = (.ok (pending dir db), final) ∧
      final.log = some (db.log.getD ∅ ∪ (files dir).toFinset) ∧
      apply dir sql final = (.ok [], final)

/-- The half about runs in which no file raises holds of every database. -/
theorem apply_success {final : Db D}
    (h : replay sql (pending dir db) (bootstrap db) = .ok final) :
    apply dir sql db = (.ok (pending dir db), final) ∧
      final.log = some (db.log.getD ∅ ∪ (files dir).toFinset) ∧
      apply dir sql final = (.ok [], final) := by
  have hlog := replay_log rfl h
  have hnone := pending_of_applied hlog
  have hagain : replay sql (pending dir final) (bootstrap final) = .ok final := by
    rw [hnone, bootstrap, hlog, Option.getD_some, ← hlog]
    rfl
  refine ⟨apply_of_ok h, ?_, ?_⟩
  · rw [hlog]
    congr 1
    ext name
    simp only [Finset.mem_union, List.mem_toFinset, pending, List.mem_filter, decide_eq_true_eq]
    tauto
  · rw [apply_of_ok hagain, hnone]

/-- The files before a failing one leave rows behind, so rolling them back shows. -/
theorem replay_ne_bootstrap {before after : List String} {name : String} {mid : Db D}
    (hsplit : pending dir db = before ++ name :: after) (hne : before ≠ [])
    (hbefore : replay sql before (bootstrap db) = .ok mid) : mid ≠ bootstrap db := by
  intro heq
  have hlog := replay_log rfl hbefore
  obtain ⟨first, hfirst⟩ := List.exists_mem_of_ne_nil before hne
  have hnew : first ∉ db.log.getD ∅ :=
    not_mem_log_of_pending (hsplit ▸ List.mem_append_left _ hfirst)
  rw [heq] at hlog
  have hrows : db.log.getD ∅ = db.log.getD ∅ ∪ before.toFinset := Option.some.inj hlog
  rw [hrows] at hnew
  simp [hfirst] at hnew

/-- **Exactly when a run is atomic per file.** The file that raises, if any, is the
first pending one. -/
theorem atomicPerFile_iff (dir : Directory) (sql : String → D → Except E D) (db : Db D) :
    AtomicPerFile dir sql db ↔
      ∀ before name after mid e, pending dir db = before ++ name :: after →
        replay sql before (bootstrap db) = .ok mid → sql name mid.data = .error e →
        before = [] := by
  constructor
  · intro hatomic before name after mid e hsplit hbefore hsql
    by_contra hne
    have hkept := hatomic.failure before name after mid e hsplit hbefore hsql
    rw [apply_of_error hsplit hbefore hsql] at hkept
    exact replay_ne_bootstrap hsplit hne hbefore (Prod.ext_iff.1 hkept).2.symm
  · intro hfirst
    refine ⟨fun before name after mid e hsplit hbefore hsql => ?_, fun final => apply_success⟩
    obtain rfl := hfirst before name after mid e hsplit hbefore hsql
    rw [apply_of_error hsplit hbefore hsql]
    cases hbefore
    rfl

end Run

/-- Two pending files; the second one raises. -/
def secondFails (name : String) (tables : List String) : Except String (List String) :=
  if name = "0002_second.sql" then .error "syntax error" else .ok (tables ++ [name])

/-- The first file succeeds and is rolled back with the second. -/
theorem second_failure_undoes_the_first :
    ¬ ∀ (dir : Directory) (sql : String → List String → Except String (List String))
      (db : Db (List String)), AtomicPerFile dir sql db := by
  intro hatomic
  have hkept := (hatomic ⟨["0001_first.sql", "0002_second.sql"], by decide⟩ secondFails
    ⟨none, []⟩).failure ["0001_first.sql"] "0002_second.sql" []
    ⟨some {"0001_first.sql"}, ["0001_first.sql"]⟩ "syntax error" (by decide +kernel)
    (by decide +kernel) (by decide +kernel)
  exact absurd hkept (by decide +kernel)

end DealFinder.Deploy.Migrate
