import UserDirectory.Sql.Selection
import UserDirectory.Sql.Transcript
import UserDirectory.Sql.UserTables

namespace UserDirectory.Sql

/-- Rows by their aliases, each with its values under the names of their columns. -/
abbrev Scope := List (String × List (String × Datum))

def Expr.value? (scope : Scope) : Expr → Option Datum
  | .column table name => (scope.lookup table).bind (·.lookup name)
  | .constant b => some (.bool b)
  | .equal a b => do return .bool ((← a.value? scope) = (← b.value? scope))

def rowOf (items : List SelectItem) (scope : Scope) : Row := items.map (·.expr.value? scope)

def namedRowOf (items : List SelectItem) (scope : Scope) : List (String × Datum) :=
  items.filterMap fun i => do return (← i.name?, ← i.expr.value? scope)

def identityRow (id : Uuid) : List (String × Datum) :=
  userInsertion.columns.zip (insertUser id).params

def versionRow (v : UserVersion) : List (String × Datum) :=
  versionInsertion.columns.zip (insertVersion v).params

/-- A user that is seen at present: its identity beside its latest version. -/
def currentRow (u : User) : Row :=
  rowOf currentItems
    [("u", identityRow u.id),
      ("lv", namedRowOf latestVersionItems [("v", versionRow u.toVersion)])]

def currentTypes : List DatumType := [.uuid, .uuid, .bool, .text, .text, .text, .text, .bool, .text]

def currentTable (users : List User) : Table where
  columns := (currentItems.filterMap SelectItem.name?).zip currentTypes
  rows := users.map currentRow

/-- A server whose statements read from one table, which they name by the text `source`. -/
def Table.server (t : Table) (source : String) (_ : List Exchanged) :
    (e : Exchange) → Except Fault e.Result
  | .query s =>
    match t.rows? source s with
    | some rows => .ok rows
    | none => .error (.database (.server "42601" "syntax error"))
  | .execute _ => .ok 0
  | .connect => .ok ()
  | .prepare _ _ => .ok ()
  | .batch _ => .ok ()
  | .begin => .ok ()
  | .commit => .ok ()
  | .rollback => .ok ()

end UserDirectory.Sql
