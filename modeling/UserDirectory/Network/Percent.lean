import UserDirectory.Text.Symbols
import UserDirectory.Uuid.Text

namespace UserDirectory.Network

/-- The uppercase digit for a value below sixteen. -/
def upperHexDigit (d : Nat) : Char := (Uuid.hexDigit d).toUpper

def percentEncodeByte (b : UInt8) : List Char :=
  ['%', upperHexDigit (b.toNat / 16), upperHexDigit (b.toNat % 16)]

/-- Writes with percent signs the characters beyond ASCII, the control characters, and all others
that are listed. -/
def percentEncode (listed : List Char) (cs : List Char) : List Char :=
  cs.flatMap fun c =>
    if c < ' ' ∨ '~' < c ∨ c ∈ listed then (String.utf8EncodeChar c).flatMap percentEncodeByte
    else [c]

/-- The bytes that a text stands for. -/
def percentDecode : List Char → List UInt8
  | '%' :: a :: b :: rest =>
    match Uuid.hexValue a, Uuid.hexValue b with
    | some x, some y => UInt8.ofNat (x * 16 + y) :: percentDecode rest
    | _, _ => String.utf8EncodeChar '%' ++ percentDecode (a :: b :: rest)
  | c :: rest => String.utf8EncodeChar c ++ percentDecode rest
  | [] => []

/-- The text that a text stands for, if its bytes are one. -/
def percentDecodeText? (cs : List Char) : Option String := Text.ofBytes? (percentDecode cs)

end UserDirectory.Network
