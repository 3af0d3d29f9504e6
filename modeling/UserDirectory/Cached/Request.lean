import UserDirectory.Cache.Memory
import UserDirectory.Directory

namespace UserDirectory

instance decidableEqExcept {ε α : Type} [DecidableEq ε] [DecidableEq α] :
    DecidableEq (Except ε α)
  | .ok a, .ok b => decidable_of_iff (a = b) ⟨congrArg Except.ok, Except.ok.inj⟩
  | .error e, .error f => decidable_of_iff (e = f) ⟨congrArg Except.error, Except.error.inj⟩
  | .ok _, .error _ => isFalse nofun
  | .error _, .ok _ => isFalse nofun

inductive CacheRequest
  | get (key : String)
  /-- Keeps bytes under a key for so many milliseconds. -/
  | set (key : String) (bytes : List UInt8) (lifetime : Nat)
  | remove (key : String)
  deriving DecidableEq

def CacheRequest.key : CacheRequest → String
  | .get key | .set key _ _ | .remove key => key

inductive CacheAnswer
  | bytes (bs : List UInt8)
  | stored
  | removed (found : Bool)
  deriving DecidableEq

abbrev CacheReply := Except CacheError CacheAnswer

def MemoryCache.serve (c : MemoryCache) (now : Nat) : CacheRequest → CacheReply × MemoryCache
  | .get key => ((c.get? now key).elim (.error .keyNotFound) fun bs => .ok (.bytes bs), c)
  | .set key bytes lifetime => (.ok .stored, c.set now key bytes lifetime)
  | .remove key => (.ok (.removed (c.entry? key).isSome), c.remove key)

inductive Request
  | cache (r : CacheRequest)
  | store (r : StoreRequest)
  | fence (id : Uuid)
  deriving DecidableEq

inductive Reply
  | cache (r : CacheReply)
  | store (r : StoreReply)
  /-- The task holds the fence that it asked for. -/
  | granted
  deriving DecidableEq

end UserDirectory
