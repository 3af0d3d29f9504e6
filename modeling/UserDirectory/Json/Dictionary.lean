import UserDirectory.Json.Decoder

namespace UserDirectory.Json.Dictionary

/-- How the keys of a dictionary are read from their literals, and from texts. -/
structure KeyForm (κ : Type) where
  ofLiteral : List Piece → Closing → Except Fault κ
  ofText : String → Except Mismatch κ

def textKey : KeyForm String where
  ofLiteral := textOf
  ofText := .ok

/-- The integer with a decimal text, without leading zeros and other than negative zero. -/
def integerOf? (s : String) : Option Int :=
  let (negative, ds) := match s.toList with
    | '-' :: ds => (true, ds)
    | ds => (false, ds)
  if ds.isEmpty || !ds.all Char.isDigit || (ds.head? = some '0' && (ds.length ≠ 1 || negative)) then
    none
  else
    let n : Int := NumberText.ofDigits (ds.map fun c => c.toNat - 48)
    some (if negative then -n else n)

/-- Integers of a range are keys; their digits are not written as escapes. -/
def integerKey (name : String) (lo hi : Int) : KeyForm Int where
  ofLiteral ps e :=
    if ps.all (fun p => match p with | .char _ => true | _ => false) then
      (textOf ps e).bind fun s => Decoder.lift (named s)
    else .error .malformed
  ofText := named
where
  named (s : String) : Except Mismatch Int :=
    match integerOf? s with
    | some i => Decoder.inRange name lo hi (.integer i)
    | none => .error (.wrongType (.text s) name)

/-- Reads the members of an object from a key on; each takes at least one token. -/
def readEntries (form : KeyForm κ) (d : Decoder α) : Nat → Reader (List (κ × α))
  | fuel + 1, .text ps e :: .colon :: ts =>
    match form.ofLiteral ps e with
    | .error f => .error f
    | .ok k =>
      match d.read ts with
      | .error f => .error f
      | .ok (a, .closeObject :: rest) => .ok ([(k, a)], rest)
      | .ok (a, .comma :: rest) =>
        (readEntries form d fuel rest).map fun (more, rest) => ((k, a) :: more, rest)
      | .ok (_, rest) => .error (misplaced rest)
  | _, .text ps e :: ts => (form.ofLiteral ps e).bind fun _ => .error (misplaced ts)
  | _, ts => .error (misplaced ts)

def decoder [DecidableEq κ] (lt : κ → κ → Bool) (form : KeyForm κ) (d : Decoder α) :
    Decoder (List (κ × α)) where
  read
    | .openObject :: .closeObject :: ts => .ok ([], ts)
    | .openObject :: ts =>
      (readEntries form d ts.length ts).map fun (entries, rest) => (Entries.ofList lt entries, rest)
    | ts => .error (unexpected "a map" ts)
  take
    | .object members =>
      (members.mapM fun (k, v) => do return (← form.ofText k, ← d.take v)).map (Entries.ofList lt)
    | v => .error (.wrongType v.found "a map")

end UserDirectory.Json.Dictionary
