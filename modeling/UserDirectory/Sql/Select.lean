import UserDirectory.Sql.Statement

namespace UserDirectory.Sql

inductive Expr
  /-- A column of a table, which is named by its alias. -/
  | column (table name : String)
  | constant (b : Bool)
  | equal (a b : Expr)
  deriving DecidableEq

/-- An expression and the name of the column that it makes, if that is not the expression's own. -/
structure SelectItem where
  expr : Expr
  label : Option String := none
  deriving DecidableEq

namespace Expr

def render : Expr → String
  | .column table name => table ++ "." ++ name
  | .constant true => "TRUE"
  | .constant false => "FALSE"
  | .equal a b => a.render ++ " = " ++ b.render

end Expr

namespace SelectItem

def render (i : SelectItem) : String :=
  match i.label with
  | some label => i.expr.render ++ " AS " ++ label
  | none => i.expr.render

/-- The name of the column that an item makes, if it has one. -/
def name? (i : SelectItem) : Option String :=
  match i.label, i.expr with
  | some label, _ => some label
  | none, .column _ name => some name
  | none, _ => none

end SelectItem

def renderSelectList (items : List SelectItem) : String :=
  commaSeparated (items.map SelectItem.render)

structure Insertion where
  table : String
  columns : List String
  deriving DecidableEq

/-- The text of an insertion, with one place for each column. -/
def Insertion.sql (i : Insertion) : String :=
  "INSERT INTO " ++ i.table ++ " (" ++ commaSeparated i.columns ++ ") VALUES (" ++
    commaSeparated ((List.range' 1 i.columns.length).map place) ++ ")"

end UserDirectory.Sql
