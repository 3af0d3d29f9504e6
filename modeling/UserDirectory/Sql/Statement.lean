import UserDirectory.Page

namespace UserDirectory.Sql

/-- A value that is bound to a place in a statement, or stands in a row. -/
inductive Datum
  | uuid (u : Uuid)
  | text (s : String)
  | bool (b : Bool)
  | int (i : Int)
  deriving DecidableEq

def Datum.ofField : FieldValue → Datum
  | .uuid u => .uuid u
  | .text s => .text s
  | .bool b => .bool b

/-- The values of a row in the order of its columns, where a column without value holds `none`. -/
abbrev Row := List (Option Datum)

def numberOfRow? : Row → Option Int
  | some (.int n) :: _ => some n
  | _ => none

def textOfRow? : Row → Option String
  | some (.text s) :: _ => some s
  | _ => none

structure Statement where
  sql : String
  params : List Datum := []
  deriving DecidableEq

/-- A place for a value in a statement, numbered from one. -/
def place (n : Nat) : String := "$" ++ toString n

def commaSeparated (items : List String) : String := String.intercalate ", " items

end UserDirectory.Sql
