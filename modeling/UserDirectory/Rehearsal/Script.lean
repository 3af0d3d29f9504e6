import UserDirectory.Cached.Stage

namespace UserDirectory

/-- How the calls that a fault keeps back end. -/
inductive FaultMode
  /-- A call to the cache never ends. -/
  | hang
  /-- A call to the cache finds no key. -/
  | notFound
  /-- A call to the store is refused. -/
  | badRequest
  | unavailable
  deriving DecidableEq, Repr

/-- A fault at all points whose names begin with a text, and with one key only if that is given. -/
structure ScriptedFault where
  point : String
  mode : FaultMode
  key : Option String
  /-- How many more calls it keeps back. -/
  times : Nat
  deriving DecidableEq, Repr

inductive GateState
  | armed
  | holding (task : TaskId)
  | deserted
  deriving DecidableEq, Repr

/-- A gate holds a call up at a point until it is released. -/
structure Gate where
  name : String
  point : String
  state : GateState := .armed
  deriving DecidableEq, Repr

/-- What the release of a gate finds. -/
inductive Released
  | released
  | gone
  | unreached
  | unknown
  deriving DecidableEq, Repr

namespace CacheRequest

def point : CacheRequest → String
  | .get _ => "cache.get"
  | .set _ _ _ => "cache.set"
  | .remove _ => "cache.remove"

def describe : CacheRequest → String
  | .get key => "cache.get " ++ key
  | .set key bytes lifetime =>
    "cache.set " ++ key ++ " ttl=" ++ toString (lifetime / 1000) ++ " " ++
      (Text.ofBytes? bytes).getD ""
  | .remove key => "cache.remove " ++ key

end CacheRequest

namespace CacheAnswer

def describe : CacheAnswer → String
  | .bytes _ => "hit"
  | .stored => "ok"
  | .removed true => "true"
  | .removed false => "false"

end CacheAnswer

namespace StoreRequest

def point : StoreRequest → String
  | .get _ => "store.get"
  | .query _ => "store.query"
  | .save _ => "store.save"
  | .delete _ => "store.delete"
  | .getVersion _ => "store.get_version"
  | .getByEmail _ => "store.get_by_email"

def argument : StoreRequest → String
  | .get id => id.render
  | .query p =>
    "conditions=" ++ toString ((p.conditions.map (·.toList.length)).getD 0) ++ " offset=" ++
      toString p.pagination.offset ++ " limit=" ++ toString p.pagination.limit
  | .save u => if u.id.isNil then "new" else u.id.render
  | .delete id => id.render
  | .getVersion id => id.render
  | .getByEmail email => email

end StoreRequest

/-- The reply that a fault gives to the cached store; a call that hangs gets none. -/
def FaultMode.cacheReply : FaultMode → Option CacheReply
  | .hang => none
  | .notFound => some (.error .keyNotFound)
  | _ => some (.error (.connection "cache unavailable"))

def FaultMode.describe : FaultMode → String
  | .hang => "hang"
  | .notFound => "not_found"
  | _ => "fail"

def FaultMode.storeError : FaultMode → UserError
  | .badRequest => .badRequest "store rejected"
  | _ => .internalError "store unavailable"

end UserDirectory
