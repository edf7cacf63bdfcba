import Mathlib.Data.List.Sort
import Rcptto.ForStd.Run
import Rcptto.Native.Pipeline
import Rcptto.Native.Strconv

/-!
# Migrating the database

`Migrate` of `internal/store/postgres/db.go`. A server that starts brings the tables of its database
up to date: it goes through the scripts that are embedded in it, in the order of their names, and
applies each whose version is not recorded in `schema_migrations`. A script and the record of its
version are one transaction, so that either both take effect or none does.

`migrate` is the function as it runs on its own. Several servers can start at the same time, on
older or newer binaries. `Migrating` is a database with any number of calls under way, and
`Migrating.Step` a step of one: every statement is one, and so is every transaction, since the
primary key makes a second one that records the same version fail. What a script does to the tables
is up to the database, and is left open as the function `exec`. Every statement can also fail, a
server can be stopped at any point, and a transaction can take effect although its answer is lost.
-/

namespace Rcptto.Native

/-! ## Scripts -/

/-- An entry of the directory `migrations`, as it is embedded in the binary. -/
structure DirEntry where
  name : String
  isDir : Bool := false
  content : String := ""
  deriving DecidableEq

/-- The errors of `Migrate`: the name of a script has no version, or one that is no number, a script
    cannot be applied, or another statement fails. -/
inductive MigrateError where
  | expectedName (name : String)
  | badVersion (name : String)
  | apply (name : String)
  | statement
  deriving DecidableEq

/-- `migrationVersion`. -/
def migrationVersion (name : String) : Except MigrateError Int :=
  match cut '_' name with
  | none => .error (.expectedName name)
  | some (version, _) =>
    match parseInt version with
    | none => .error (.badVersion name)
    | some v => .ok v

/-- The scripts that `Migrate` goes through. -/
def migrationFiles (entries : List DirEntry) : List DirEntry :=
  (entries.filter fun e => !e.isDir && hasSuffix e.name ".sql").insertionSort
    (·.name ≤ ·.name)

/-! ## The database -/

/-- The versions in `schema_migrations`, in the order in which they were inserted, if that table
    exists, and everything else. -/
structure Schema (S : Type) where
  migrations : Option (List Int)
  tables : S

section Migrate

variable {S : Type}

/-- The versions that are recorded. -/
def Schema.versions (d : Schema S) : List Int := d.migrations.getD []

/-- `CREATE TABLE IF NOT EXISTS schema_migrations`. -/
def Schema.create (d : Schema S) : Schema S := { d with migrations := some d.versions }

variable (exec : String → S → Option S)

/-- `applyMigration`, unless it fails. -/
def applyMigration (d : Schema S) (version : Int) (sqlText : String) : Option (Schema S) :=
  match exec sqlText d.tables with
  | none => none
  | some tables =>
    -- the version is the primary key
    if version ∈ d.versions then none
    else some { migrations := some (d.versions ++ [version]), tables := tables }

/-- The loop of `Migrate`. -/
def migrateLoop (d : Schema S) : List DirEntry → Schema S × Option MigrateError
  | [] => (d, none)
  | file :: rest =>
    match migrationVersion file.name with
    | .error err => (d, some err)
    | .ok version =>
      if version ∈ d.versions then migrateLoop d rest
      else
        match applyMigration exec d version file.content with
        | none => (d, some (.apply file.name))
        | some d' => migrateLoop d' rest

/-- `Migrate`, when nothing else happens to the database and no statement but a script fails. -/
def migrate (d : Schema S) (entries : List DirEntry) : Schema S × Option MigrateError :=
  migrateLoop exec d.create (migrationFiles entries)

end Migrate

/-! ## Calls under way -/

/-- Where a call of `Migrate` stands: before its first statement, before it asks for a version,
    before the transaction that applies a script, or at its end. -/
inductive MigratePhase where
  | called
  | checking (version : Int) (file : DirEntry) (rest : List DirEntry)
  | applying (version : Int) (file : DirEntry) (rest : List DirEntry)
  | returned (err : Option MigrateError)
  deriving DecidableEq

/-- The head of the loop of `Migrate`. -/
def MigratePhase.next : List DirEntry → MigratePhase
  | [] => .returned none
  | file :: rest =>
    match migrationVersion file.name with
    | .error err => .returned (some err)
    | .ok version => .checking version file rest

/-- A call of `Migrate`, by a server with these scripts. -/
structure MigrateCall where
  entries : List DirEntry
  phase : MigratePhase := .called

/-- A database, and the calls of `Migrate` so far. -/
structure Migrating (S : Type) where
  schema : Schema S
  calls : List MigrateCall := []

/-- What can happen next: a server starts, or a step of the `k`-th call. In `fails` a statement has
    no effect and its call ends, which is also what a server that is stopped looks like. In `lost`
    the transaction has taken effect, but the call does not learn of it. -/
inductive MigrateAction where
  | start (entries : List DirEntry)
  | create (k : Nat)
  | check (k : Nat)
  | apply (k : Nat)
  | lost (k : Nat)
  | fails (k : Nat) (err : MigrateError)

section Migrating

variable {S : Type}

/-- The `k`-th call goes on to this phase. -/
def Migrating.setPhase (s : Migrating S) (k : Nat) (entries : List DirEntry)
    (phase : MigratePhase) : Migrating S :=
  { s with calls := s.calls.set k { entries := entries, phase := phase } }

/-- One step, if it is possible. -/
def Migrating.perform (exec : String → S → Option S) (s : Migrating S) :
    MigrateAction → Option (Migrating S)
  | .start entries => some { s with calls := s.calls ++ [{ entries := entries }] }
  | .create k =>
    match s.calls[k]? with
    | some ⟨entries, .called⟩ =>
      some { s.setPhase k entries (.next (migrationFiles entries)) with schema := s.schema.create }
    | _ => none
  | .check k =>
    match s.calls[k]? with
    | some ⟨entries, .checking version file rest⟩ =>
      some (s.setPhase k entries
        (if version ∈ s.schema.versions then .next rest else .applying version file rest))
    | _ => none
  | .apply k =>
    match s.calls[k]? with
    | some ⟨entries, .applying version file rest⟩ =>
      match applyMigration exec s.schema version file.content with
      | none => some (s.setPhase k entries (.returned (some (.apply file.name))))
      | some d => some { s.setPhase k entries (.next rest) with schema := d }
    | _ => none
  | .lost k =>
    match s.calls[k]? with
    | some ⟨entries, .applying version file _⟩ =>
      -- the schema has changed, and the call returns an error all the same
      (applyMigration exec s.schema version file.content).map fun d =>
        { s.setPhase k entries (.returned (some (.apply file.name))) with schema := d }
    | _ => none
  | .fails k err =>
    match s.calls[k]? with
    | none | some ⟨_, .returned _⟩ => none
    | some ⟨entries, _⟩ => some (s.setPhase k entries (.returned (some err)))

/-- One step. -/
def Migrating.Step (exec : String → S → Option S) (s : Migrating S) (a : MigrateAction)
    (s' : Migrating S) : Prop :=
  s.perform exec a = some s'

/-- An execution of any number of calls. -/
abbrev Migrating.Runs (exec : String → S → Option S) (s : Migrating S) (as : List MigrateAction)
    (s' : Migrating S) : Prop :=
  Run (Migrating.Step exec) s as s'

end Migrating

end Rcptto.Native
