import UserDirectory.Uuid

namespace UserDirectory.Uuid

/-- The digit for a value below sixteen. -/
def hexDigit (d : Nat) : Char :=
  if d < 10 then Char.ofNat (48 + d) else Char.ofNat (87 + d)

/-- The value of a digit of either letter case. -/
def hexValue (c : Char) : Option Nat :=
  let n := c.toNat
  if 48 ≤ n ∧ n ≤ 57 then some (n - 48)
  else if 97 ≤ n ∧ n ≤ 102 then some (n - 87)
  else if 65 ≤ n ∧ n ≤ 70 then some (n - 55)
  else none

/-- The lowest `width` digits of a number in base sixteen, most significant first. -/
def digits : Nat → Nat → List Nat
  | 0, _ => []
  | width + 1, n => digits width (n / 16) ++ [n % 16]

/-- The number with the given digits in base sixteen, most significant first. -/
def ofDigits (ds : List Nat) : Nat := ds.foldl (fun n d => n * 16 + d) 0

/-- Puts a hyphen between groups of 8, 4, 4, 4 and the remaining digits. -/
def hyphenate (cs : List Char) : List Char :=
  cs.take 8 ++ '-' :: (cs.drop 8).take 4 ++ '-' :: (cs.drop 12).take 4 ++
    '-' :: (cs.drop 16).take 4 ++ '-' :: cs.drop 20

/-- The written form as characters. -/
def chars (u : Uuid) : List Char := hyphenate ((digits 32 u.toNat).map hexDigit)

/-- The written form: hyphenated, in lower case. -/
def render (u : Uuid) : String := String.ofList u.chars

instance : ToString Uuid := ⟨render⟩

/-- Reads exactly 32 digits. -/
def ofPlain? (cs : List Char) : Option Uuid :=
  if cs.length = 32 then (cs.mapM hexValue).map fun ds => ofNat (ofDigits ds) else none

/-- Reads 32 digits in five groups. -/
def ofHyphenated? (cs : List Char) : Option Uuid :=
  let plain := cs.take 8 ++ (cs.drop 9).take 4 ++ (cs.drop 14).take 4 ++ (cs.drop 19).take 4 ++
    cs.drop 24
  if cs.length = 36 ∧ [8, 13, 18, 23].all (cs[·]? == some '-') then ofPlain? plain else none

/-- Reads any of the four accepted forms. -/
def ofChars? (cs : List Char) : Option Uuid :=
  match cs.length with
  | 32 => ofPlain? cs
  | 36 => ofHyphenated? cs
  | 38 => if cs.head? = some '\x7b' ∧ cs.getLast? = some '\x7d'
      then ofHyphenated? ((cs.drop 1).take 36) else none
  | 45 =>
    if (cs.take 9).map Char.toLower = "urn:uuid:".toList then ofHyphenated? (cs.drop 9) else none
  | _ => none

def ofString? (s : String) : Option Uuid := ofChars? s.toList

end UserDirectory.Uuid
