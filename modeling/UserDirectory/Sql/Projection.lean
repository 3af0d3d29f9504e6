import UserDirectory.Sql.Selection
import UserDirectory.Sql.StoredRows

/-!
What statements make of rows, by their texts. An insertion stores each parameter under the column at
its position; a query makes a row of the expressions of its select list, in their order, from a row
of a table and a row that is found for it.
-/

namespace UserDirectory.Sql

def isMark (c : Char) : Bool := c = ',' || c = '(' || c = ')'

/-- Blanks stand between words; commas and brackets are words of their own. -/
def wordsOf (cs : List Char) : List String :=
  (((cs.flatMap fun c => if isMark c then [' ', c, ' '] else [c]).splitOn ' ').filter
    (!·.isEmpty)).map String.ofList

def words (sql : String) : List String := wordsOf sql.toList

namespace Expr

/-- Reads an expression that is one word. -/
def ofWord? (word : String) : Option Expr :=
  if word = "TRUE" then some (.constant true)
  else if word = "FALSE" then some (.constant false)
  else
    match word.toList.splitOn '.' with
    | [table, name] => some (.column (.ofList table) (.ofList name))
    | _ => none

def ofWords? : List String → Option Expr
  | [a] => ofWord? a
  | [a, "=", b] => do return .equal (← ofWord? a) (← ofWord? b)
  | _ => none

end Expr

def SelectItem.ofWords? (words : List String) : Option SelectItem :=
  match words.splitOn "AS" with
  | [expr] => do return { expr := ← Expr.ofWords? expr }
  | [expr, [label]] => do return { expr := ← Expr.ofWords? expr, label := some label }
  | _ => none

/-- A select list over the rows of a table, which have the name `row` in it. -/
structure Projection where
  items : List SelectItem
  table : String
  row : String
  deriving DecidableEq

/-- Reads a select list and what it is over, and gives the words after that. -/
def Projection.read? : List String → Option (Projection × List String)
  | "SELECT" :: words =>
    match words.dropWhile (· ≠ "FROM") with
    | _ :: table :: row :: rest => do
      let list := words.takeWhile (· ≠ "FROM")
      return (⟨← (list.splitOn ",").mapM SelectItem.ofWords?, table, row⟩, rest)
    | _ => none
  | _ => none

/-- A projection of rows, each together with a row that a projection in brackets finds for it. That
row has the name `found` in the outer one. -/
structure JoinedProjection where
  outer : Projection
  inner : Projection
  found : String
  deriving DecidableEq

namespace JoinedProjection

def read? (words : List String) : Option JoinedProjection := do
  let (outer, words) ← Projection.read? words
  match words with
  | "JOIN" :: "LATERAL" :: "(" :: words =>
    let (inner, words) ← Projection.read? words
    match words.dropWhile (· ≠ ")") with
    | _ :: found :: "ON" :: "TRUE" :: _ => return ⟨outer, inner, found⟩
    | _ => none
  | _ => none

/-- All columns of a query in brackets are those of that query. -/
def ofWords? : List String → Option JoinedProjection
  | "SELECT" :: "*" :: "FROM" :: "(" :: words => read? words
  | words => read? words

/-- Reads what the text of a query makes of rows, whichever rows it admits. -/
def of? (sql : String) : Option JoinedProjection := ofWords? (words sql)

/-- A row of the outer table beside the one that is found for it in the inner table. -/
def scope (q : JoinedProjection) (outer inner : List (String × Datum)) : Scope :=
  [(q.outer.row, outer), (q.found, namedRowOf q.inner.items [(q.inner.row, inner)])]

end JoinedProjection

/-- Reads what is listed before a bracket that closes, and gives the words after it. -/
def readList? (words : List String) : Option (List String × List String) :=
  match words.dropWhile (· ≠ ")") with
  | _ :: rest => some ((words.takeWhile (· ≠ ")")).filter (· ≠ ","), rest)
  | [] => none

/-- Reads the table of an insertion, its columns and the places of their values. -/
def readInsertion? : List String → Option (Insertion × List String)
  | "INSERT" :: "INTO" :: table :: "(" :: words => do
    match ← readList? words with
    | (columns, "VALUES" :: "(" :: words) => do
      let (places, _) ← readList? words
      return (⟨table, columns⟩, places)
    | _ => none
  | _ => none

/-- The row that an insertion stores, and its table. -/
def Statement.stored? (s : Statement) : Option (String × List (String × Datum)) := do
  let (i, places) ← readInsertion? (words s.sql)
  let values ← places.mapM fun word => do bound? s.params (← placeOf? word)
  guard (i.columns.length = values.length)
  return (i.table, i.columns.zip values)

def Change.stored? : Change → Option (String × List (String × Datum))
  | .statement s => s.stored?
  | .text _ => none

end UserDirectory.Sql
