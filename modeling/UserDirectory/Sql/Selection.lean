import UserDirectory.Sql.Statement
import UserDirectory.Text.Integer

namespace UserDirectory.Sql

/-- A column and the place of the value that it is compared with. -/
structure Comparison where
  column : String
  place : Nat
  deriving DecidableEq

/-- Rows that meet all comparisons, in ascending order of a column. The number of rows that are read
at most stands at the place `limit`, the number of those skipped before at `offset`. -/
structure Selection where
  comparisons : List Comparison := []
  orderBy : String
  limit : Nat
  offset : Nat
  deriving DecidableEq

def placeOf? (word : String) : Option Nat :=
  match word.toList with
  | '$' :: digits => Text.natural? digits
  | _ => none

/-- Comparisons joined by `AND`, and the words after them. -/
def readComparisons : List String → Option (List Comparison × List String)
  | column :: "=" :: word :: "AND" :: rest => do
    let (comparisons, rest) ← readComparisons rest
    return (⟨column, ← placeOf? word⟩ :: comparisons, rest)
  | column :: "=" :: word :: rest => do return ([⟨column, ← placeOf? word⟩], rest)
  | _ => none

def readClause : List String → Option (List Comparison × List String)
  | "WHERE" :: rest => readComparisons rest
  | words => some ([], words)

namespace Selection

def ofWords? (words : List String) : Option Selection := do
  match ← readClause words with
  | (comparisons, ["ORDER", "BY", column, "LIMIT", limit, "OFFSET", offset]) =>
    return ⟨comparisons, column, ← placeOf? limit, ← placeOf? offset⟩
  | _ => none

/-- Reads a statement that begins with the text `source`; each word after it follows a blank. -/
def of? (source sql : String) : Option Selection := do
  match (← source.toList.isPrefixOf? sql.toList).splitOn ' ' with
  | [] :: words => ofWords? (words.map String.ofList)
  | _ => none

end Selection

inductive DatumType
  | uuid
  | text
  | bool
  | int
  deriving DecidableEq

def Datum.type : Datum → DatumType
  | .uuid _ => .uuid
  | .text _ => .text
  | .bool _ => .bool
  | .int _ => .int

/-- The value at a place; places are numbered from one. -/
def bound? (params : List Datum) : Nat → Option Datum
  | 0 => none
  | n + 1 => params[n]?

/-- A natural number that a signed 64-bit integer holds. -/
def Datum.natural? : Datum → Option Nat
  | .int i => if 0 ≤ i ∧ i < 0x8000000000000000 then some i.toNat else none
  | _ => none

/-- A table of typed columns; its rows have no order of their own. -/
structure Table where
  columns : List (String × DatumType)
  rows : List Row

namespace Table

def value? (t : Table) (column : String) (row : Row) : Option Datum :=
  (((t.columns.map Prod.fst).zip row).lookup column).join

/-- Whether a row may stand before another in ascending order of a column of identifiers. -/
def mayPrecede (t : Table) (column : String) (a b : Row) : Bool :=
  match t.value? column a, t.value? column b with
  | some (.uuid u), some (.uuid v) => u ≤ v
  | none, some _ => false
  | _, _ => true

/-- The column that is compared and the value that it shall have. An unknown column, a place without
value or a value of another type than the column's makes the statement fail. -/
def test? (t : Table) (params : List Datum) (c : Comparison) : Option (String × Datum) := do
  let x ← bound? params c.place
  guard (t.columns.lookup c.column = some x.type)
  return (c.column, x)

/-- The rows selected; a comparison with a missing value admits no row. -/
def select? (t : Table) (s : Selection) (params : List Datum) : Option (List Row) := do
  let tests ← s.comparisons.mapM (t.test? params)
  guard (t.columns.lookup s.orderBy = some .uuid)
  let limit ← (← bound? params s.limit).natural?
  let offset ← (← bound? params s.offset).natural?
  let rows := t.rows.filter fun row => tests.all fun test => t.value? test.1 row = some test.2
  return ((rows.mergeSort (t.mayPrecede s.orderBy)).drop offset).take limit

/-- The rows that a statement reads from the table, which it names by the text `source`. -/
def rows? (t : Table) (source : String) (s : Statement) : Option (List Row) := do
  t.select? (← Selection.of? source s.sql) s.params

end Table

end UserDirectory.Sql
