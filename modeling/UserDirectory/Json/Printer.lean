import UserDirectory.Json.Value

namespace UserDirectory.Json

/-- The lowercase hexadecimal digit for a value below sixteen. -/
def lowerHexDigit (d : Nat) : Char :=
  if d < 10 then Char.ofNat (48 + d) else Char.ofNat (87 + d)

/-- How a character is written inside a text. -/
def escapeChar (c : Char) : List Char :=
  if c = '\"' then ['\\', '\"']
  else if c = '\\' then ['\\', '\\']
  else if c = '\x08' then ['\\', 'b']
  else if c = '\x0c' then ['\\', 'f']
  else if c = '\n' then ['\\', 'n']
  else if c = '\r' then ['\\', 'r']
  else if c = '\t' then ['\\', 't']
  else if c < ' ' then
    ['\\', 'u', '0', '0', lowerHexDigit (c.toNat / 16), lowerHexDigit (c.toNat % 16)]
  else [c]

def quoteChars (cs : List Char) : List Char := '\"' :: cs.flatMap escapeChar ++ ['\"']

/-- The decimal digits of an integer, with a sign if it is negative. -/
def integerChars : Int → List Char
  | .ofNat n => Nat.toDigits 10 n
  | .negSucc n => '-' :: Nat.toDigits 10 (n + 1)

def numberChars : Number → List Char
  | .integer i => integerChars i
  | .floating => "0.0".toList

namespace Value

mutual

def chars : Value → List Char
  | .null => "null".toList
  | .bool true => "true".toList
  | .bool false => "false".toList
  | .number n => numberChars n
  | .text s => quoteChars s.toList
  | .list items => '[' :: itemChars items
  | .object members => '\x7b' :: memberChars members

def itemChars : List Value → List Char
  | [] => [']']
  | [v] => v.chars ++ [']']
  | v :: w :: rest => v.chars ++ ',' :: itemChars (w :: rest)

/-- The members of an object and its closing brace. -/
def memberChars : List (String × Value) → List Char
  | [] => ['\x7d']
  | [(k, v)] => quoteChars k.toList ++ ':' :: (v.chars ++ ['\x7d'])
  | (k, v) :: m :: rest =>
    quoteChars k.toList ++ ':' :: (v.chars ++ ',' :: memberChars (m :: rest))

end

/-- The written form as a text. -/
def render (v : Value) : String := String.ofList v.chars

end Value

end UserDirectory.Json
