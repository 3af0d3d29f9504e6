import UserDirectory.Json.Fault
import UserDirectory.Json.Token.Scan

/-!
Reading values off a token sequence. A reader takes the tokens in front of it and returns what
follows the value, or the first fault met. Skipping a value is more lenient than reading it: it
accepts lone halves of surrogate pairs, stray bytes and numbers of any size, at any depth.
-/

namespace UserDirectory.Json

/-- A reader of values of one type from the front of a token sequence. -/
abbrev Reader (α : Type) := List Token → Except Fault (α × List Token)

/-- The fault of a token that was never completed. -/
def Break.fault : Break → Fault
  | .malformed => .malformed
  | .endOfText => .endOfText

/-- The fault where a token of another kind is needed: the text ends, or it is malformed. -/
def misplaced : List Token → Fault
  | [] => .endOfText
  | _ => .malformed

/-- The unit for the character that two halves of a surrogate pair encode. -/
def pairedUnit (high low : Nat) : Nat := 0x10000 + (high - 0xD800) * 0x400 + (low - 0xDC00)

def isHighHalf (u : Nat) : Bool := 0xD800 ≤ u && u ≤ 0xDBFF

def isLowHalf (u : Nat) : Bool := 0xDC00 ≤ u && u ≤ 0xDFFF

/-- The characters of a string literal up to its first fault: a half of a surrogate pair that
stands alone is malformed, unless the text ends where its partner is due. -/
def unitChars : List Piece → Closing → Except Fault (List Char)
  | [], .quote => .ok []
  | [], .broken why => .error why.fault
  | .char c :: ps, e => (unitChars ps e).map (c :: ·)
  | .stray :: ps, e => do
    let _ ← unitChars ps e
    .error .malformed
  | .unit u :: ps, e =>
    if isLowHalf u then .error .malformed
    else if isHighHalf u then
      match ps with
      | .unit v :: ps' =>
        if isLowHalf v then (unitChars ps' e).map (Char.ofNat (pairedUnit u v) :: ·)
        else .error .malformed
      | [] => .error (if e = .broken .endOfText then .endOfText else .malformed)
      | _ :: _ => .error .malformed
    else (unitChars ps e).map (Char.ofNat u :: ·)

def textOf (ps : List Piece) (e : Closing) : Except Fault String :=
  (unitChars ps e).map String.ofList

/-- The fault of a value that is read where a value of another type is expected. -/
def unexpected (expected : String) : List Token → Fault
  | [] => .endOfText
  | .null :: _ => .mismatch (.wrongType .null expected)
  | .bool b :: _ => .mismatch (.wrongType (.bool b) expected)
  | .number t :: _ =>
    match t.value? with
    | some n => .mismatch (.wrongType n.found expected)
    | none => .malformed
  | .cutNumber :: _ => .endOfText
  | .text ps e :: _ =>
    match textOf ps e with
    | .ok s => .mismatch (.wrongType (.text s) expected)
    | .error f => f
  | .openList :: _ => .mismatch (.wrongType .list expected)
  | .openObject :: _ => .mismatch (.wrongType .object expected)
  | .broken why :: _ => why.fault
  | .closeList :: _ => .malformed
  | .closeObject :: _ => .malformed
  | .colon :: _ => .malformed
  | .comma :: _ => .malformed

inductive Bracket
  | list
  | object
  deriving DecidableEq, Repr

/-- What a reader inside nested brackets waits for. -/
inductive Awaited
  | value
  /-- A value, or the end of a list that was just opened. -/
  | firstItem
  | key
  /-- A key, or the end of an object that was just opened. -/
  | firstKey
  | colon
  /-- What follows a value inside the innermost bracket. -/
  | separator
  deriving DecidableEq, Repr

/-- Goes past one token of a value that is skipped. -/
def skipToken : List Bracket → Awaited → Token → Except Fault (List Bracket × Awaited)
  | .list :: stack, .firstItem, .closeList => .ok (stack, .separator)
  | .object :: stack, .firstKey, .closeObject => .ok (stack, .separator)
  | .list :: stack, .separator, .comma => .ok (.list :: stack, .value)
  | .list :: stack, .separator, .closeList => .ok (stack, .separator)
  | .object :: stack, .separator, .comma => .ok (.object :: stack, .key)
  | .object :: stack, .separator, .closeObject => .ok (stack, .separator)
  | stack, .colon, .colon => .ok (stack, .value)
  | stack, .key, .text _ .quote => .ok (stack, .colon)
  | stack, .firstKey, .text _ .quote => .ok (stack, .colon)
  | _, .key, .text _ (.broken why) => .error why.fault
  | _, .firstKey, .text _ (.broken why) => .error why.fault
  | stack, .value, t => skipLeaf stack t
  | stack, .firstItem, t => skipLeaf stack t
  | _, _, _ => .error .malformed
where
  /-- Goes past the token that begins a value. -/
  skipLeaf (stack : List Bracket) : Token → Except Fault (List Bracket × Awaited)
    | .null | .bool _ | .number _ | .text _ .quote => .ok (stack, .separator)
    | .openList => .ok (.list :: stack, .firstItem)
    | .openObject => .ok (.object :: stack, .firstKey)
    | .text _ (.broken why) | .broken why => .error why.fault
    | _ => .error .malformed

/-- Skips the rest of a value inside the given open brackets. -/
def skipFrom : List Bracket → Awaited → List Token → Except Fault (List Token)
  | [], .separator, ts => .ok ts
  | _, _, [] => .error .endOfText
  | stack, awaited, t :: ts =>
    match skipToken stack awaited t with
    | .ok (stack, awaited) => skipFrom stack awaited ts
    | .error f => .error f

def skip (ts : List Token) : Except Fault (List Token) := skipFrom [] .value ts

/-- A list or an object that is being read: its values so far, latest first. -/
inductive Frame
  | list (items : List Value)
  | object (members : List (String × Value)) (key : String)

/-- What a reader of trees has in front of it: a value to read, a value just read, or a key. -/
inductive Growth
  | value
  | firstItem
  | firstKey
  | key
  | colon
  | grown (v : Value)

/-- Takes one token into the tree that is being read; at most `room` brackets may be open at
once. -/
def growToken (room : Nat) : List Frame → Growth → Token → Except Fault (List Frame × Growth)
  | .list items :: stack, .firstItem, .closeList => .ok (stack, .grown (.list items.reverse))
  | .object members _ :: stack, .firstKey, .closeObject =>
    .ok (stack, .grown (.object members.reverse))
  | .list items :: stack, .grown v, .comma => .ok (.list (v :: items) :: stack, .value)
  | .list items :: stack, .grown v, .closeList =>
    .ok (stack, .grown (.list (v :: items).reverse))
  | .object members k :: stack, .grown v, .comma =>
    .ok (.object ((k, v) :: members) k :: stack, .key)
  | .object members k :: stack, .grown v, .closeObject =>
    .ok (stack, .grown (.object ((k, v) :: members).reverse))
  | stack, .colon, .colon => .ok (stack, .value)
  | .object members _ :: stack, .key, .text ps e =>
    (textOf ps e).map fun k => (.object members k :: stack, .colon)
  | .object members _ :: stack, .firstKey, .text ps e =>
    (textOf ps e).map fun k => (.object members k :: stack, .colon)
  | stack, .value, t => growLeaf stack t
  | stack, .firstItem, t => growLeaf stack t
  | _, _, _ => .error .malformed
where
  growLeaf (stack : List Frame) : Token → Except Fault (List Frame × Growth)
    | .null => .ok (stack, .grown .null)
    | .bool b => .ok (stack, .grown (.bool b))
    | .number t =>
      match t.value? with
      | some n => .ok (stack, .grown (.number n))
      | none => .error .malformed
    | .cutNumber => .error .endOfText
    | .text ps e => (textOf ps e).map fun s => (stack, .grown (.text s))
    | .openList =>
      if stack.length < room then .ok (.list [] :: stack, .firstItem) else .error .malformed
    | .openObject =>
      if stack.length < room then .ok (.object [] "" :: stack, .firstKey) else .error .malformed
    | .broken why => .error why.fault
    | _ => .error .malformed

/-- Reads the rest of a tree inside the given frames. -/
def growFrom (room : Nat) : List Frame → Growth → Reader Value
  | [], .grown v, ts => .ok (v, ts)
  | _, _, [] => .error .endOfText
  | stack, growth, t :: ts =>
    match growToken room stack growth t with
    | .ok (stack, growth) => growFrom room stack growth ts
    | .error f => .error f

/-- Reads one value of any kind as a tree in which at most `room` brackets are open at once. -/
def readTree (room : Nat) : Reader Value := growFrom room [] .value

/-- Reads a text that holds one value and nothing after it. -/
def readAll (read : Reader α) (bs : List UInt8) : Except Fault α :=
  match read (tokens bs) with
  | .ok (a, []) => .ok a
  | .ok (_, _ :: _) => .error .malformed
  | .error f => .error f

/-- Reads a text as a tree of any depth. -/
def Value.ofBytes (bs : List UInt8) : Except Fault Value :=
  readAll (readTree (tokens bs).length) bs

end UserDirectory.Json
