import UserDirectory.Cache.Key
import UserDirectory.Cache.Typed
import UserDirectory.User.Json

namespace UserDirectory

open UserDirectory.Json

inductive CacheSubject
  | user (id : Uuid)
  | email (email : String)
  deriving DecidableEq

namespace CacheSubject

/-- The values that are kept for a subject. -/
abbrev Kept : CacheSubject → Type
  | .user _ => User
  | .email _ => Uuid

def key : CacheSubject → String
  | .user id => CacheKey.user id
  | .email e => CacheKey.email e

def codec : (s : CacheSubject) → Codec s.Kept
  | .user _ => User.codec
  | .email _ => Codec.uuid

def slot (s : CacheSubject) : CacheSlot s.Kept := ⟨s.key, s.codec⟩

end CacheSubject

inductive SlotCall (α : Type)
  | tryGet
  | contains
  | set (value : α) (lifetime : Nat)
  | remove

/-- What a call through a handle leaves of a cache. -/
def CacheSlot.perform (s : CacheSlot α) (c : CacheBackend) (now : Nat) :
    SlotCall α → CacheBackend
  | .tryGet => (s.tryGet c now).2
  | .contains => (s.contains c now).2
  | .set value lifetime => (s.set c now value lifetime).2
  | .remove => (s.remove c).2

/-- A call through the handle of a subject. -/
structure SubjectCall where
  subject : CacheSubject
  call : SlotCall subject.Kept

/-- What calls, each at its time, leave of a cache. -/
def CacheBackend.performAll (c : CacheBackend) (calls : List (Nat × SubjectCall)) : CacheBackend :=
  calls.foldl (fun c call => call.2.subject.slot.perform c call.1 call.2.call) c

end UserDirectory
