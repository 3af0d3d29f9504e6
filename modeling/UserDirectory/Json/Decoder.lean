import UserDirectory.Json.Reader
import UserDirectory.Uuid.Text

namespace UserDirectory.Json

/-- Reads values of a type from tokens and takes them from trees. -/
structure Decoder (α : Type) where
  read : Reader α
  take : Value → Except Mismatch α

namespace Decoder

/-- Decodes a text that holds one value and nothing after it. -/
def decode (d : Decoder α) (bs : List UInt8) : Except Fault α := readAll d.read bs

/-- Takes a value from a tree whose objects are first sorted by key. -/
def ofTree (d : Decoder α) (v : Value) : Except Mismatch α := d.take v.canonical

def lift : Except Mismatch α → Except Fault α
  | .ok a => .ok a
  | .error m => .error (.mismatch m)

/-- Decodes with a last conversion that may refuse the value. -/
def refine (d : Decoder α) (f : α → Except Mismatch β) : Decoder β where
  read ts :=
    match d.read ts with
    | .ok (a, rest) => (lift (f a)).map fun b => (b, rest)
    | .error e => .error e
  take v := (d.take v).bind f

def map (f : α → β) (d : Decoder α) : Decoder β := d.refine fun a => .ok (f a)

def text : Decoder String where
  read
    | .text ps e :: ts => (textOf ps e).map fun s => (s, ts)
    | ts => .error (unexpected "a string" ts)
  take
    | .text s => .ok s
    | v => .error (.wrongType v.found "a string")

def bool : Decoder Bool where
  read
    | .bool b :: ts => .ok (b, ts)
    | ts => .error (unexpected "a boolean" ts)
  take
    | .bool b => .ok b
    | v => .error (.wrongType v.found "a boolean")

/-- The integer that a number stands for, if it lies in a range. -/
def inRange (name : String) (lo hi : Int) : Number → Except Mismatch Int
  | .integer i =>
    if lo ≤ i ∧ i ≤ hi then .ok i else .error (.wrongValue (.integer i) name)
  | .floating => .error (.wrongType .floating name)

def integer (name : String) (lo hi : Int) : Decoder Int where
  read
    | .number t :: ts =>
      match t.value? with
      | some n => (lift (inRange name lo hi n)).map fun i => (i, ts)
      | none => .error .malformed
    | ts => .error (unexpected name ts)
  take
    | .number n => inRange name lo hi n
    | v => .error (.wrongType v.found name)

/-- Natural numbers of so many bits. -/
def unsigned (bits : Nat) : Decoder Nat :=
  (integer ("u" ++ toString bits) 0 (Int.ofNat (Nat.pow 2 bits) - 1)).map Int.toNat

/-- The least positive integer that needs more bits, if one of them is for the sign. -/
def signedLimit (bits : Nat) : Int := Int.ofNat (Nat.pow 2 (bits - 1))

def signed (bits : Nat) : Decoder Int :=
  integer ("i" ++ toString bits) (-signedLimit bits) (signedLimit bits - 1)

def uuidExpected : String := "a formatted UUID string"

def uuidOf (s : String) : Except Mismatch Uuid :=
  match Uuid.ofString? s with
  | some u => .ok u
  | none => .error .malformedUuid

def uuid : Decoder Uuid :=
  refine
    { read
        | .text ps e :: ts => (textOf ps e).map fun s => (s, ts)
        | ts => .error (unexpected uuidExpected ts)
      take
        | .text s => .ok s
        | v => .error (.wrongType v.found uuidExpected) }
    uuidOf

def unit : Decoder Unit where
  read
    | .null :: ts => .ok ((), ts)
    | ts => .error (unexpected "unit" ts)
  take
    | .null => .ok ()
    | v => .error (.wrongType v.found "unit")

def nullable (d : Decoder α) : Decoder (Option α) where
  read
    | .null :: ts => .ok (none, ts)
    | ts => (d.read ts).map fun (a, rest) => (some a, rest)
  take
    | .null => .ok none
    | v => (d.take v).map some

/-- Reads the items of a list up to its end; each takes at least one token, so that `fuel` items
are enough for as many tokens. -/
def readItems (read : Reader α) : Nat → Reader (List α)
  | 0, ts => .error (misplaced ts)
  | fuel + 1, ts =>
    match read ts with
    | .error f => .error f
    | .ok (a, .closeList :: rest) => .ok ([a], rest)
    | .ok (a, .comma :: rest) => (readItems read fuel rest).map fun (as, rest) => (a :: as, rest)
    | .ok (_, rest) => .error (misplaced rest)

def list (d : Decoder α) : Decoder (List α) where
  read
    | .openList :: .closeList :: ts => .ok ([], ts)
    | .openList :: ts => readItems d.read ts.length ts
    | ts => .error (unexpected "a sequence" ts)
  take
    | .list items => items.mapM d.take
    | v => .error (.wrongType v.found "a sequence")

/-- A choice between names without data, written as a text or as an object with the name as its
only key and `null` as its value. -/
def variant (known : List (String × α)) : Decoder α where
  read
    | .text ps e :: ts => do
      let s ← textOf ps e
      return (← lift (named s), ts)
    | .openObject :: .text ps e :: ts => do
      let s ← textOf ps e
      let a ← lift (named s)
      match ts with
      | .colon :: ts =>
        match ← unit.read ts with
        | (_, .closeObject :: ts) => return (a, ts)
        | (_, ts) => throw (misplaced ts)
      | ts => throw (misplaced ts)
    | .openObject :: ts => .error (unexpected "variant identifier" ts)
    | ts => .error (misplaced ts)
  take
    | .text s => named s
    | .object [(k, v)] => do
      let a ← named k
      unit.take v
      return a
    | .object _ => .error (.wrongValue .object "map with a single key")
    | v => .error (.wrongType v.found "string or map")
where
  named (s : String) : Except Mismatch α :=
    match known.lookup s with
    | some a => .ok a
    | none => .error (.unknownVariant s (known.map (·.1)))

end Decoder

end UserDirectory.Json
