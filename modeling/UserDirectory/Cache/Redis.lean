import UserDirectory.Cache.Error
import UserDirectory.Config
import UserDirectory.Log
import UserDirectory.Text.Symbols

namespace UserDirectory

/-- A cache on a server, and what the server holds. It drops entries by itself whose time is over.
-/
structure RedisCache where
  db : Nat
  /-- Why no connection to the server can be opened, if so. -/
  unreachable : Option String := none
  isClosed : Bool := false
  isConnected : Bool := false
  entries : List (String × List UInt8) := []
  /-- Error replies that the server gives to its next commands. -/
  refusals : List String := []
  /-- The commands that the server was sent, latest first. -/
  commands : List (List String) := []

namespace RedisCache

def refusalMessage (reply : String) : String :=
  let word := String.ofList (reply.toList.takeWhile (· ≠ ' '))
  let rest := String.ofList (reply.toList.drop (word.length + 1))
  if word = "ERR" then "An error was signalled by the server - ResponseError: " ++ rest
  else word ++ ": " ++ rest

/-- Takes a connection from the pool, which opens one if it has none. -/
def connect (c : RedisCache) : Except CacheError RedisCache :=
  if c.isClosed then .error (.connection "Pool has been closed")
  else if c.isConnected then .ok c
  else
    match c.unreachable with
    | some reason =>
      .error (.connection ("Error occurred while creating a new object: " ++ reason))
    | none =>
      .ok { c with
        isConnected := true
        commands := if c.db = 0 then c.commands else ["SELECT", toString c.db] :: c.commands }

def send (c : RedisCache) (command : List String) : Except CacheError Unit × RedisCache :=
  match c.connect with
  | .error e => (.error e, c)
  | .ok c =>
    let c := { c with commands := command :: c.commands }
    match c.refusals with
    | reply :: rest =>
      (.error (.backend (refusalMessage reply)), { c with refusals := rest })
    | [] => (.ok (), c)

/-- The text that stands for bytes in a list of commands. -/
def shown (bs : List UInt8) : String := (Text.ofBytes? bs).getD ""

def get (c : RedisCache) (key : String) : Except CacheError (List UInt8) × RedisCache :=
  match c.send ["GET", key] with
  | (.error e, c) => (.error e, c)
  | (.ok (), c) => ((c.entries.lookup key).elim (.error .keyNotFound) .ok, c)

/-- The server counts lifetimes in whole seconds and accepts none of zero. -/
def set (c : RedisCache) (key : String) (bytes : List UInt8) (lifetime : Nat) :
    Except CacheError Unit × RedisCache :=
  match c.send ["SETEX", key, toString (max (lifetime / 1000) 1), shown bytes] with
  | (.error e, c) => (.error e, c)
  | (.ok (), c) =>
    (.ok (), { c with entries := (key, bytes) :: c.entries.filter fun (k, _) => k ≠ key })

def remove (c : RedisCache) (key : String) : Except CacheError Bool × RedisCache :=
  match c.send ["DEL", key] with
  | (.error e, c) => (.error e, c)
  | (.ok (), c) =>
    (.ok (c.entries.lookup key).isSome,
      { c with entries := c.entries.filter fun (k, _) => k ≠ key })

end RedisCache

end UserDirectory
