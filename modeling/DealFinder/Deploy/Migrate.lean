/-
# Versioned migrations

`migrate.apply` runs the migration files that the log table does not name, in
order, each in a `conn.transaction()` block with its row in the log. The block is
meant to be a transaction of its own. It is one only if none is open yet, and
the `SELECT` that reads the log has opened one on the same connection.

The SQL of a file is a partial function on the rest of the database: files do not
touch the log.
-/

import DealFinder.Math.Transaction
import Mathlib.Data.Finset.Basic
import Mathlib.Data.List.Sort
import Mathlib.Data.String.Basic

namespace DealFinder.Deploy.Migrate

open DealFinder.Math

universe u v

variable {D : Type u} {E : Type v}

/-- The database: the table `dealfinder.schema_migrations`, when it exists, as the
set of its file names, and everything else. -/
structure Db (D : Type u) where
  log : Option (Finset String)
  data : D
  deriving DecidableEq

/-- The exceptions of a migration run. -/
inductive MigrateError (E : Type v)
  | sql (e : E)
  | undefinedTable
  | uniqueViolation
  deriving DecidableEq

/-- The names in a directory, each listed once. -/
structure Directory where
  names : List String
  nodup : names.Nodup

/-- `_files`: the `*.sql` names, sorted. -/
def files (dir : Directory) : List String :=
  (dir.names.filter fun name => name.endsWith ".sql").insertionSort (· ≤ ·)

/-- `_BOOTSTRAP`: create the log table if it is not there. -/
def bootstrap (db : Db D) : Db D := { db with log := some (db.log.getD ∅) }

/-- `_applied`: the `SELECT` that reads the log. -/
def applied (db : Db D) : Except (MigrateError E) (Finset String × Db D) :=
  match db.log with
  | some done => .ok (done, db)
  | none => .error .undefinedTable

/-- Run the text of one file. -/
def runSql (sql : String → D → Except E D) (name : String) (db : Db D) :
    Except (MigrateError E) (Unit × Db D) :=
  match sql name db.data with
  | .ok data => .ok ((), { db with data })
  | .error e => .error (.sql e)

/-- `INSERT INTO dealfinder.schema_migrations`; the file name is the primary key. -/
def insertLog (name : String) (db : Db D) : Except (MigrateError E) (Unit × Db D) :=
  match db.log with
  | none => .error .undefinedTable
  | some done =>
      if name ∈ done then .error .uniqueViolation
      else .ok ((), { db with log := some (insert name done) })

/-- One turn of the loop of `apply`. -/
def applyFile (sql : String → D → Except E D) (done : Finset String) (ran : List String)
    (name : String) : Session (Db D) Unit (MigrateError E) (List String) :=
  if name ∈ done then pure ran
  else do
    Session.transaction do
      Session.execute (runSql sql name)
      Session.execute (insertLog name)
    pure (ran ++ [name])

/-- The body of `apply`, on its connection. -/
def applyBody (dir : Directory) (sql : String → D → Except E D) :
    Session (Db D) Unit (MigrateError E) (List String) := do
  Session.execute fun db => .ok ((), bootstrap db)
  Session.commit
  let done ← Session.execute applied
  (files dir).foldlM (applyFile sql done) []

/-- `migrate.apply`: the result, and the database it leaves. -/
def apply (dir : Directory) (sql : String → D → Except E D) (db : Db D) :
    Except (DbError (MigrateError E)) (List String) × Db D :=
  let out := Session.connect (.ok ()) (applyBody dir sql) db ()
  (out.1, out.2.1)

/-- `migrate.pending`: the files the log does not name. -/
def pending (dir : Directory) (db : Db D) : List String :=
  (files dir).filter fun name => decide (name ∉ db.log.getD ∅)

/-- `migrate.schema_ready`, on a database that can be reached. -/
def schemaReady (dir : Directory) (db : Db D) : Bool := (pending dir db).isEmpty

end DealFinder.Deploy.Migrate
