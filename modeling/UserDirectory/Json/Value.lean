import UserDirectory.Json.Entries
import UserDirectory.Json.Number

namespace UserDirectory.Json

/-- JSON values as trees. The members of an object stand in the order in which they were written. -/
inductive Value
  | null
  | bool (b : Bool)
  | number (n : Number)
  | text (s : String)
  | list (items : List Value)
  | object (members : List (String × Value))
  deriving Inhabited

namespace Value

def integer (i : Int) : Value := .number (.integer i)

def natural (n : Nat) : Value := .integer n

def keyLt (a b : String) : Bool := decide (a < b)

def member? (v : Value) (key : String) : Option Value :=
  match v with
  | .object members => (members.reverse.find? (·.1 = key)).map (·.2)
  | _ => none

/-- The value of a member, which is null if there is none. -/
def member (v : Value) (key : String) : Value := (v.member? key).getD .null

def text? : Value → Option String
  | .text s => some s
  | _ => none

def bool? : Value → Option Bool
  | .bool b => some b
  | _ => none

def integer? : Value → Option Int
  | .number (.integer i) => some i
  | _ => none

def natural? (v : Value) : Option Nat := v.integer?.bind Int.toNat?

/-- The items of a list; other values have none. -/
def items : Value → List Value
  | .list items => items
  | _ => []

mutual

/-- The value with the members of every object sorted by key, one for each key. -/
def canonical : Value → Value
  | .list items => .list (canonicalItems items)
  | .object members => .object (Entries.ofList keyLt (canonicalMembers members))
  | v => v

def canonicalItems : List Value → List Value
  | [] => []
  | v :: rest => v.canonical :: canonicalItems rest

def canonicalMembers : List (String × Value) → List (String × Value)
  | [] => []
  | (k, v) :: rest => (k, v.canonical) :: canonicalMembers rest

end

mutual

/-- The value with every text in it changed, keys excepted. -/
def mapTexts (f : String → String) : Value → Value
  | .text s => .text (f s)
  | .list items => .list (mapItems f items)
  | .object members => .object (mapMembers f members)
  | v => v

def mapItems (f : String → String) : List Value → List Value
  | [] => []
  | v :: rest => v.mapTexts f :: mapItems f rest

def mapMembers (f : String → String) : List (String × Value) → List (String × Value)
  | [] => []
  | (k, v) :: rest => (k, v.mapTexts f) :: mapMembers f rest

end

end Value

end UserDirectory.Json
