import UserDirectory.Text.Integer
import UserDirectory.Uuid.Text

namespace UserDirectory.Network

/-- An octet, without leading zeros. -/
def octet? (cs : List Char) : Option Nat :=
  if cs.length ≤ 3 ∧ (cs.length = 1 ∨ cs.head? ≠ some '0') then
    (Text.natural? cs).filter (· ≤ 255)
  else none

/-- The octets of an address of version 4. -/
def ipv4? (cs : List Char) : Option (List Nat) :=
  let parts := cs.splitOn '.'
  if parts.length = 4 then parts.mapM octet? else none

def group? (cs : List Char) : Option Nat :=
  if cs.length = 0 ∨ 4 < cs.length then none else (cs.mapM Uuid.hexValue).map Uuid.ofDigits

/-- The groups that a part of an address stands for; an address of version 4 stands for two. -/
def groupsOfPart? (cs : List Char) : Option (List Nat) :=
  match group? cs with
  | some g => some [g]
  | none =>
    match ipv4? cs with
    | some [a, b, c, d] => some [a * 256 + b, c * 256 + d]
    | _ => none

/-- Groups with colons between them. Only the last part may be an address of version 4, and that
only if it ends the whole address. -/
def groups? (isEnd : Bool) (cs : List Char) : Option (List Nat) :=
  if cs.isEmpty then some []
  else
    let parts := cs.splitOn ':'
    match parts.dropLast.mapM group?, parts.getLast? with
    | some gs, some p => (if isEnd then groupsOfPart? p else (group? p).map ([·])).map (gs ++ ·)
    | _, _ => none

/-- What stands before and after the first two colons in a row. -/
def splitAtGap : List Char → Option (List Char × List Char)
  | ':' :: ':' :: rest => some ([], rest)
  | c :: rest => (splitAtGap rest).map fun (a, b) => (c :: a, b)
  | [] => none

/-- The eight groups of an address of version 6. -/
def ipv6? (cs : List Char) : Option (List Nat) :=
  match splitAtGap cs with
  | none => (groups? true cs).filter (·.length = 8)
  | some (a, b) =>
    match groups? false a, groups? true b with
    | some gs, some hs =>
      let missing := 8 - (gs.length + hs.length)
      if missing = 0 then none else some (gs ++ List.replicate missing 0 ++ hs)
    | _, _ => none

def isAddress (cs : List Char) : Bool := (ipv4? cs).isSome || (ipv6? cs).isSome

def leadingZeros (gs : List Nat) : Nat := (gs.takeWhile (· = 0)).length

/-- The longest run of zeros, the first of equally long ones: where it begins and its length. -/
def longestZeros (gs : List Nat) : Nat × Nat :=
  (List.range gs.length).foldl
    (fun best i =>
      let n := leadingZeros (gs.drop i)
      if best.2 < n then (i, n) else best)
    (0, 0)

def renderGroups (gs : List Nat) : String :=
  String.intercalate ":" (gs.map fun g => String.ofList (Nat.toDigits 16 g))

/-- The written form of an address of version 6, without its longest run of two or more zeros. -/
def renderIpv6 (gs : List Nat) : String :=
  let (start, count) := longestZeros gs
  if count < 2 then renderGroups gs
  else renderGroups (gs.take start) ++ "::" ++ renderGroups (gs.drop (start + count))

end UserDirectory.Network
