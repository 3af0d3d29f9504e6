import UserDirectory.Sql.Conversation
import UserDirectory.Sql.Migration

namespace UserDirectory.Sql

inductive MigrationError
  | fault (f : Fault)
  /-- The text of a migration could not be run. -/
  | failed (name : String) (f : Fault)
  deriving DecidableEq

def MigrationError.message : MigrationError → String
  | .fault f => f.message
  | .failed name f => "Failed to run migration " ++ name ++ ": " ++ f.message

/-- Makes the table of the applied migrations. The names in it are distinct. -/
def createMigrationTable : String :=
  "CREATE TABLE IF NOT EXISTS _migrations ( id SERIAL PRIMARY KEY, " ++
    "name VARCHAR(255) NOT NULL UNIQUE, applied_at TIMESTAMPTZ NOT NULL DEFAULT NOW() )"

def countRecords (name : String) : Statement :=
  ⟨"SELECT COUNT(*) FROM _migrations WHERE name = $1", [.text name]⟩

def recordMigration (name : String) : Statement :=
  ⟨"INSERT INTO _migrations (name, applied_at) VALUES ($1, NOW())", [.text name]⟩

/-- Reads the names of the applied migrations, those applied first first. -/
def recordedNames : Statement := ⟨"SELECT name FROM _migrations ORDER BY applied_at, id", []⟩

namespace Migrator

abbrev Talk := Conversation MigrationError

def exchange (e : Exchange) : Talk e.Result := .exchange .fault e

def createTable : Talk Unit := do
  exchange .connect
  exchange (.batch createMigrationTable)

def isApplied (name : String) : Talk Bool := do
  let s := countRecords name
  exchange .connect
  exchange (.prepare s.sql false)
  let row ← .onlyRow .fault (← exchange (.query s))
  .read ((numberOfRow? row).map (0 < ·))

def apply (m : Migration) : Talk Unit := do
  exchange .connect
  .transaction .fault do
    .exchange (.failed m.name) (.batch m.sql)
    let s := recordMigration m.name
    exchange (.prepare s.sql false)
    let _ ← exchange (.execute s)

/-- Applies those of the given migrations that are not recorded, after the ones named in `applied`,
and returns the names of all that were applied. -/
def applyFrom (applied : List String) : List Migration → Talk (List String)
  | [] => .done applied
  | m :: rest => do
    if ← isApplied m.name then
      .note ⟨.info, "Migration " ++ m.name ++ " already applied, skipping", []⟩
      applyFrom applied rest
    else
      .note ⟨.info, "Running migration: " ++ m.name, []⟩
      apply m
      applyFrom (applied ++ [m.name]) rest

/-- Applies the migrations that are not recorded and returns their names. -/
def run (migrations : List Migration) : Talk (List String) := do
  createTable
  applyFrom [] migrations

def applied : Talk (List String) := do
  createTable
  let s := recordedNames
  exchange .connect
  exchange (.prepare s.sql false)
  .read ((← exchange (.query s)).mapM textOfRow?)

def pending (migrations : List Migration) : Talk (List String) := do
  let recorded ← applied
  return (migrations.map (·.name)).filter (· ∉ recorded)

end Migrator

end UserDirectory.Sql
