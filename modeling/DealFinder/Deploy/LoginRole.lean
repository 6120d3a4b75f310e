/-
# The production login role

`create_login_role.provision` sets the role's password in one open transaction,
writes the matching `DATABASE_URL` to the secret, and only then commits. Both
stores are in the model: Postgres, whose changes a rollback undoes, and the
secret, whose changes it does not.

Postgres stores a verifier of the password and never the password. A verifier is
kept here as what it was computed from.
-/

import DealFinder.Deploy.Secrets
import DealFinder.Math.PercentCoding

namespace DealFinder.Deploy.LoginRole

open DealFinder.Math DealFinder.Deploy.Secrets

/-- `scram_verifier`: it accepts the one password it was computed from. -/
structure Verifier where
  password : String
  salt : String
  iterations : ℕ
  deriving DecidableEq

/-- `dealfinder_svc`. -/
structure Role where
  verifier : Verifier
  grants : List String
  deriving DecidableEq

/-- What Postgres knows of `dealfinder_svc`, when the role exists. -/
abbrev Pg := Option Role

/-- The statements of `role_statements`. -/
inductive Stmt
  | createRole (verifier : Verifier)
  | alterRole (verifier : Verifier)
  | grant (text : String)

/-- The exceptions of `provision`. -/
inductive ProvisionError
  | runtimeError (message : String)
  | duplicateObject
  | undefinedObject
  | operationalError (text : String)
  deriving DecidableEq

/-- The grants of `role_statements`. -/
def grantStatements : List String :=
  ["GRANT dealfinder_app TO dealfinder_svc", "GRANT dealfinder_job TO dealfinder_svc",
    "GRANT USAGE ON SCHEMA dealfinder TO dealfinder_svc",
    "GRANT SELECT ON dealfinder.schema_migrations TO dealfinder_svc"]

/-- `role_statements`. -/
def roleStatements (password salt : String) (rotate : Bool) : List Stmt :=
  (if rotate then .alterRole ⟨password, salt, 4096⟩ else .createRole ⟨password, salt, 4096⟩) ::
    grantStatements.map .grant

/-- What Postgres does with a statement, which a fault may fail. -/
def runStmt (fault : Option String) (stmt : Stmt) (pg : Pg) : Except ProvisionError (Unit × Pg) :=
  match fault with
  | some text => .error (.operationalError text)
  | none =>
      match stmt, pg with
      | .createRole verifier, none => .ok ((), some ⟨verifier, []⟩)
      | .createRole _, some _ => .error .duplicateObject
      | .alterRole verifier, some role => .ok ((), some { role with verifier })
      | .alterRole _, none => .error .undefinedObject
      | .grant text, some role => .ok ((), some { role with grants := role.grants.insert text })
      | .grant _, none => .error .undefinedObject

/-- `pooler_url`. -/
def poolerUrl (ref host password : String) : String :=
  "postgresql://dealfinder_svc." ++ ref ++ ":" ++ quote password ++ "@" ++ host ++
    ":6543/postgres" ++ "?sslmode=verify-full&sslrootcert=" ++
    quote "/app/dealfinder/certs/supabase-prod-ca-2021.crt"

/-- The faults of a provisioning run, step by step; a step without one succeeds if
the state it finds lets it. -/
structure Faults where
  pooler : Option String
  readSecret : Option String
  connect : Option String
  ddl : ℕ → Option String
  merge : Secrets.Faults
  commit : Option String

/-- What the environment supplies: the project, the pooler's host, a fresh token
and the salt of its verifier. -/
structure Env where
  ref : String
  host : String
  token : String
  salt : String

/-- The statements of one transaction, each with its number. -/
def runAll (faults : ℕ → Option String) : ℕ → List Stmt → Session Pg Store ProvisionError Unit
  | _, [] => pure ()
  | number, stmt :: rest => do
      Session.execute (runStmt (faults number) stmt)
      runAll faults (number + 1) rest

/-- `except psycopg.errors.DuplicateObject: raise RuntimeError(...)`. -/
def roleExists : DbError ProvisionError → DbError ProvisionError
  | .raised .duplicateObject =>
      .raised (.runtimeError
        "dealfinder_svc already exists: re-run with --rotate to set a new password")
  | e => e

/-- The updates that `provision` merges into the secret. -/
def databaseUrl (env : Env) : Payload :=
  Dict.empty.set "DATABASE_URL" (poolerUrl env.ref env.host env.token)

/-- The body of `with connect(...)`. -/
def provisionBody (faults : Faults) (env : Env) (rotate : Bool) :
    Session Pg Store ProvisionError ℕ := do
  Effect.mapError roleExists (runAll faults.ddl 0 (roleStatements env.token env.salt rotate))
  Session.outside
    (Effect.mapError (fun e => .runtimeError e.message) (merge faults.merge (databaseUrl env)))

/-- `provision`: the result, and what it leaves in Postgres and in the secret. -/
def provision (faults : Faults) (env : Env) (rotate : Bool) (pg : Pg) (store : Store) :
    Except (DbError ProvisionError) ℕ × Pg × Store :=
  match faults.pooler with
  | some text => (.error (.raised (.runtimeError text)), pg, store)
  | none =>
      match (current faults.readSecret store).1 with
      | .error e => (.error (.raised (.runtimeError e.message)), pg, store)
      | .ok _ =>
          match faults.connect with
          | some text => (.error (.raised (.operationalError text)), pg, store)
          | none =>
              Session.connect
                (match faults.commit with
                | some text => .error (.operationalError text)
                | none => .ok ())
                (provisionBody faults env rotate) pg store

end DealFinder.Deploy.LoginRole
