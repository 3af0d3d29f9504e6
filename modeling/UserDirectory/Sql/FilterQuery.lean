import UserDirectory.Sql.Statement

namespace UserDirectory.Sql

/-- The comparisons of columns with the places from a number on. -/
def comparisons : Nat → List (String × Datum) → List String
  | _, [] => []
  | n, (column, _) :: filters => (column ++ " = " ++ place n) :: comparisons (n + 1) filters

/-- The clause that admits the rows with the given values; without filters it is empty. -/
def whereClause (filters : List (String × Datum)) : Statement where
  sql :=
    if filters.isEmpty then "" else " WHERE " ++ String.intercalate " AND " (comparisons 1 filters)
  params := filters.map (·.2)

/-- A natural number as a signed 64-bit integer; one too large is the largest. -/
def bigint (n : Nat) : Int := Int.ofNat (min n 0x7fffffffffffffff)

/-- A query over a base text with filters, an order and a page. -/
structure FilterQuery where
  base : String
  orderBy : String
  filters : List (String × Datum) := []
  limit : Int := bigint (default : PageBounds).limit
  offset : Int := bigint (default : PageBounds).offset

namespace FilterQuery

def filter (q : FilterQuery) (column : String) (value : Datum) : FilterQuery :=
  { q with filters := q.filters ++ [(column, value)] }

def filterAll (q : FilterQuery) (filters : List (String × Datum)) : FilterQuery :=
  { q with filters := q.filters ++ filters }

def paginate (q : FilterQuery) (page : PageBounds) : FilterQuery :=
  { q with limit := bigint page.limit, offset := bigint page.offset }

/-- The statement of the query. The last two parameters are the limit and the offset. -/
def build (q : FilterQuery) : Statement :=
  let clause := whereClause q.filters
  let next := clause.params.length + 1
  { sql := q.base ++ clause.sql ++ " " ++ q.orderBy ++ " LIMIT " ++ place next ++ " OFFSET " ++
      place (next + 1)
    params := clause.params ++ [.int q.limit, .int q.offset] }

end FilterQuery

end UserDirectory.Sql
