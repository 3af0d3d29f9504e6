import UserDirectory.Cache.Memory
import UserDirectory.Cache.Redis

namespace UserDirectory

inductive CacheBackend
  | memory (cache : MemoryCache)
  | redis (cache : RedisCache)

namespace CacheBackend

def get (c : CacheBackend) (now : Nat) (key : String) :
    Except CacheError (List UInt8) × CacheBackend :=
  match c with
  | .memory m => ((m.get? now key).elim (.error .keyNotFound) .ok, c)
  | .redis r => ((r.get key).1, .redis (r.get key).2)

/-- A read for which a missing key is no error. -/
def tryGet (c : CacheBackend) (now : Nat) (key : String) :
    Except CacheError (Option (List UInt8)) × CacheBackend :=
  match c.get now key with
  | (.ok bytes, c) => (.ok (some bytes), c)
  | (.error .keyNotFound, c) => (.ok none, c)
  | (.error e, c) => (.error e, c)

def contains (c : CacheBackend) (now : Nat) (key : String) :
    Except CacheError Bool × CacheBackend :=
  ((c.tryGet now key).1.map Option.isSome, (c.tryGet now key).2)

def set (c : CacheBackend) (now : Nat) (key : String) (bytes : List UInt8) (lifetime : Nat) :
    Except CacheError Unit × CacheBackend :=
  match c with
  | .memory m => (.ok (), .memory (m.set now key bytes lifetime))
  | .redis r => ((r.set key bytes lifetime).1, .redis (r.set key bytes lifetime).2)

/-- Drops an entry and says whether there was one. -/
def remove (c : CacheBackend) (key : String) : Except CacheError Bool × CacheBackend :=
  match c with
  | .memory m => (.ok (m.entry? key).isSome, .memory (m.remove key))
  | .redis r => ((r.remove key).1, .redis (r.remove key).2)

end CacheBackend

end UserDirectory
