import UserDirectory.Config
import UserDirectory.Cache.Error

namespace UserDirectory

structure CacheEntry where
  bytes : List UInt8
  written : Nat
  lifetime : Nat
  deriving DecidableEq

/-- A map from keys to bytes in which every entry has a lifetime of its own, counted from when it
was last written and never longer than the cache allows. -/
structure MemoryCache where
  maxLifetime : Nat
  entries : List (String × CacheEntry) := []

namespace MemoryCache

/-- The empty cache of a configuration, by a clock that ticks so often a second. It may drop entries
only beyond the capacity, and keeps all of them. -/
def ofConfigAt (ticks : Nat) (c : MemoryConfig) : MemoryCache :=
  { maxLifetime := c.ttlSecs * ticks }

/-- The empty cache of a configuration, by a clock in milliseconds. -/
def ofConfig (c : MemoryConfig) : MemoryCache := ofConfigAt 1000 c

/-- What is kept under a key, whether or not it has expired. -/
def entry? (c : MemoryCache) (key : String) : Option CacheEntry := c.entries.lookup key

/-- The bytes under a key at a time before their lifetime is over. -/
def get? (c : MemoryCache) (now : Nat) (key : String) : Option (List UInt8) :=
  match c.entry? key with
  | some e => if now < e.written + e.lifetime then some e.bytes else none
  | none => none

def set (c : MemoryCache) (now : Nat) (key : String) (bytes : List UInt8) (lifetime : Nat) :
    MemoryCache :=
  { c with
    entries := (key, ⟨bytes, now, min lifetime c.maxLifetime⟩) ::
      c.entries.filter fun (k, _) => k ≠ key }

def remove (c : MemoryCache) (key : String) : MemoryCache :=
  { c with entries := c.entries.filter fun (k, _) => k ≠ key }

end MemoryCache

end UserDirectory
