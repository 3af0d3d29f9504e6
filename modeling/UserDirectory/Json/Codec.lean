import UserDirectory.Json.Dictionary
import UserDirectory.Json.Printer

namespace UserDirectory.Json

/-- How values of a type are written as JSON and read back. -/
structure Codec (α : Type) where
  encode : α → Value
  decoder : Decoder α

namespace Codec

/-- The bytes of the JSON text of a value. -/
def toBytes (c : Codec α) (a : α) : List UInt8 := Text.bytes (c.encode a).render

/-- The value whose JSON text these bytes are. -/
def ofBytes (c : Codec α) (bs : List UInt8) : Except Fault α := c.decoder.decode bs

def text : Codec String := ⟨.text, .text⟩

def bool : Codec Bool := ⟨.bool, .bool⟩

def uuid : Codec Uuid := ⟨fun u => .text u.render, .uuid⟩

def natural (bits : Nat) : Codec Nat := ⟨.natural, .unsigned bits⟩

def integer (bits : Nat) : Codec Int := ⟨.integer, .signed bits⟩

def nullable (c : Codec α) : Codec (Option α) :=
  ⟨fun o => o.elim .null c.encode, .nullable c.decoder⟩

def list (c : Codec α) : Codec (List α) := ⟨fun as => .list (as.map c.encode), .list c.decoder⟩

/-- Dictionaries whose keys are texts, sorted by key. -/
def dictionary (c : Codec α) : Codec (List (String × α)) where
  encode entries := .object (entries.map fun (k, a) => (k, c.encode a))
  decoder := Dictionary.decoder Value.keyLt Dictionary.textKey c.decoder

/-- Dictionaries whose keys are integers of so many bits, sorted by key. -/
def integerDictionary (bits : Nat) (c : Codec α) : Codec (List (Int × α)) where
  encode entries := .object (entries.map fun (k, a) => (toString k, c.encode a))
  decoder :=
    Dictionary.decoder (fun a b => decide (a < b))
      (Dictionary.integerKey ("i" ++ toString bits) (-Decoder.signedLimit bits)
        (Decoder.signedLimit bits - 1))
      c.decoder

end Codec

end UserDirectory.Json
