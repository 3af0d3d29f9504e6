import UserDirectory.Cache.Backend
import UserDirectory.Json.Codec

namespace UserDirectory

open UserDirectory.Json

/-- The value whose JSON text the bytes of an entry are. -/
def Json.Codec.ofEntry (c : Codec α) (bs : List UInt8) : Except CacheError α :=
  (c.ofBytes bs).mapError fun f => .deserialization f.message

/-- The bytes to keep for a dictionary. They are refused if a key cannot stand as a text. -/
def Json.Codec.entryOfDictionary (keyText? : κ → Option String) (c : Codec α)
    (entries : List (κ × α)) : Except CacheError (List UInt8) :=
  match entries.mapM fun (k, a) => (keyText? k).map (·, c.encode a) with
  | some members => .ok (Text.bytes (Value.object members).render)
  | none => .error (.serialization "key must be a string")

structure CacheSlot (α : Type) where
  key : String
  codec : Codec α

namespace CacheSlot

def tryGet (s : CacheSlot α) (c : CacheBackend) (now : Nat) :
    Except CacheError (Option α) × CacheBackend :=
  match c.tryGet now s.key with
  | (.ok (some bytes), c) => ((s.codec.ofEntry bytes).map some, c)
  | (.ok none, c) => (.ok none, c)
  | (.error e, c) => (.error e, c)

def set (s : CacheSlot α) (c : CacheBackend) (now : Nat) (value : α) (lifetime : Nat) :
    Except CacheError Unit × CacheBackend :=
  c.set now s.key (s.codec.toBytes value) lifetime

def contains (s : CacheSlot α) (c : CacheBackend) (now : Nat) :
    Except CacheError Bool × CacheBackend :=
  c.contains now s.key

def remove (s : CacheSlot α) (c : CacheBackend) : Except CacheError Bool × CacheBackend :=
  c.remove s.key

end CacheSlot

end UserDirectory
