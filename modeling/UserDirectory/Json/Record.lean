import UserDirectory.Json.Decoder

/-!
Records: values with named fields, written as objects with the names as keys or as lists in the
order of the fields. In an object unknown keys are skipped, a repeated key is refused where it
stands, and a field that is missing is noticed at the end, the first in declaration order.
-/

namespace UserDirectory.Json

inductive Absence
  | refused
  /-- It is accepted in an object and refused in a list. -/
  | accepted
  /-- It is accepted; in a list only the last fields can be absent. -/
  | defaulted
  deriving DecidableEq, Repr

structure RecordField (δ : Type) where
  key : String
  value : Decoder (δ → δ)
  isFilled : δ → Bool
  absence : Absence := .refused

/-- The field whose value is kept in one place of a draft. -/
def RecordField.of (key : String) (d : Decoder β) (absence : Absence) (get : δ → Option β)
    (set : δ → β → δ) : RecordField δ :=
  ⟨key, d.map fun b draft => set draft b, fun draft => (get draft).isSome, absence⟩

/-- A record type: its name, its fields in order, and how a draft becomes a value. -/
structure Record (α δ : Type) where
  name : String
  fields : List (RecordField δ)
  empty : δ
  finish : δ → α

namespace Record

variable {α δ : Type} (r : Record α δ)

def expected : String := "struct " ++ r.name

/-- How the length of a list is described that stands for the record. -/
def expectedLength : String :=
  r.expected ++ " with " ++ toString r.fields.length ++
    (if r.fields.length = 1 then " element" else " elements")

def field? (key : String) : Option (RecordField δ) := r.fields.find? (·.key = key)

/-- The value of a draft to which nothing more is added. -/
def close (draft : δ) : Except Mismatch α :=
  match r.fields.find? fun f => f.absence = .refused && !f.isFilled draft with
  | some f => .error (.missingField f.key)
  | none => .ok (r.finish draft)

/-- Reads the value of one member into a draft, or skips it if its key is unknown. -/
def readMember (key : String) (draft : δ) : Reader δ := fun ts =>
  match r.field? key with
  | some f =>
    if f.isFilled draft then .error (.mismatch (.duplicateField key))
    else
      match ts with
      | .colon :: ts => (f.value.read ts).map fun (set, rest) => (set draft, rest)
      | ts => .error (misplaced ts)
  | none =>
    match ts with
    | .colon :: ts => (skip ts).map fun rest => (draft, rest)
    | ts => .error (misplaced ts)

/-- Reads the members of an object from a key on; each takes at least one token. -/
def readMembers : Nat → δ → Reader δ
  | fuel + 1, draft, .text ps e :: ts =>
    match textOf ps e with
    | .error f => .error f
    | .ok key =>
      match r.readMember key draft ts with
      | .error f => .error f
      | .ok (draft, .closeObject :: rest) => .ok (draft, rest)
      | .ok (draft, .comma :: rest) => readMembers fuel draft rest
      | .ok (_, rest) => .error (misplaced rest)
  | _, _, ts => .error (misplaced ts)

/-- The value of a draft whose fields from a position on are absent in a list. -/
def closeShort (position : Nat) (missing : List (RecordField δ)) (draft : δ) : Except Mismatch α :=
  match missing.findIdx? fun f => f.absence ≠ .defaulted with
  | some i => .error (.wrongLength (position + i) r.expectedLength)
  | none => .ok (r.finish draft)

def readElements : Nat → List (RecordField δ) → δ → Reader α
  | _, [], draft, .closeList :: ts => .ok (r.finish draft, ts)
  | _, [], _, ts => .error (misplaced ts)
  | position, f :: fields, draft, ts =>
    match f.value.read ts with
    | .error e => .error e
    | .ok (set, .closeList :: rest) =>
      (Decoder.lift (r.closeShort (position + 1) fields (set draft))).map fun a => (a, rest)
    | .ok (set, .comma :: rest) =>
      if fields = [] then .error .malformed
      else readElements (position + 1) fields (set draft) rest
    | .ok (_, rest) => .error (misplaced rest)

/-- Takes members that stand for the record, in order. -/
def takeMembers (draft : δ) : List (String × Value) → Except Mismatch δ
  | [] => .ok draft
  | (key, v) :: rest =>
    match r.field? key with
    | none => takeMembers draft rest
    | some f =>
      if f.isFilled draft then .error (.duplicateField key)
      else
        match f.value.take v with
        | .ok set => takeMembers (set draft) rest
        | .error m => .error m

def takeElements (total : Nat) : Nat → List (RecordField δ) → δ → List Value → Except Mismatch α
  | _, [], draft, [] => .ok (r.finish draft)
  | _, [], _, _ :: _ => .error (.wrongLength total "fewer elements in array")
  | position, f :: fields, draft, [] => r.closeShort position (f :: fields) draft
  | position, f :: fields, draft, v :: rest =>
    match f.value.take v with
    | .ok set => takeElements total (position + 1) fields (set draft) rest
    | .error m => .error m

def decoder : Decoder α where
  read
    | .openObject :: .closeObject :: ts =>
      (Decoder.lift (r.close r.empty)).map fun a => (a, ts)
    | .openObject :: ts =>
      match r.readMembers ts.length r.empty ts with
      | .ok (draft, rest) => (Decoder.lift (r.close draft)).map fun a => (a, rest)
      | .error f => .error f
    | .openList :: .closeList :: ts =>
      (Decoder.lift (r.closeShort 0 r.fields r.empty)).map fun a => (a, ts)
    | .openList :: ts => r.readElements 0 r.fields r.empty ts
    | ts => .error (unexpected r.expected ts)
  take
    | .object members => (r.takeMembers r.empty members).bind r.close
    | .list items => r.takeElements items.length 0 r.fields r.empty items
    | v => .error (.wrongType v.found r.expected)

end Record

end UserDirectory.Json
