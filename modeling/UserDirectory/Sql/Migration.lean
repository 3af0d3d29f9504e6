namespace UserDirectory.Sql

/-- A named text of statements that takes a database towards the schema of a program. -/
structure Migration where
  name : String
  sql : String
  deriving DecidableEq, Repr

def endedLines (lines : List String) : String := String.join (lines.map (· ++ "\n"))

/-- Makes the tables of identities and versions and the indexes by which they are read. -/
def createUsers : Migration where
  name := "001_create_users"
  sql := endedLines
    ["-- Identity rows. Never updated except for the soft-delete marker.",
      "CREATE TABLE IF NOT EXISTS users (",
      "    id UUID PRIMARY KEY,",
      "    created_at TIMESTAMPTZ NOT NULL DEFAULT NOW(),",
      "    deleted_at TIMESTAMPTZ NULL",
      ");",
      "",
      "-- Append-only version rows. The latest row per user_id is the current view.",
      "CREATE TABLE IF NOT EXISTS user_versions (",
      "    id UUID PRIMARY KEY,",
      "    user_id UUID NOT NULL REFERENCES users (id),",
      "    first_name TEXT NOT NULL,",
      "    last_name TEXT NOT NULL,",
      "    email TEXT NOT NULL,",
      "    phone TEXT NOT NULL,",
      "    is_admin BOOLEAN NOT NULL DEFAULT FALSE,",
      "    password_hash TEXT NOT NULL,",
      "    created_at TIMESTAMPTZ NOT NULL DEFAULT clock_timestamp()",
      ");",
      "",
      "CREATE INDEX IF NOT EXISTS idx_user_versions_latest",
      "    ON user_versions (user_id, created_at DESC, id DESC);",
      "",
      "CREATE INDEX IF NOT EXISTS idx_user_versions_email",
      "    ON user_versions (email);"]

def userMigrations : List Migration := [createUsers]

end UserDirectory.Sql
