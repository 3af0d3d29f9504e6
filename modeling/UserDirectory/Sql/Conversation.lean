import UserDirectory.Error
import UserDirectory.Log
import UserDirectory.Sql.Statement

/-!
Conversations with a database. A conversation is a tree: at each node it takes a connection from
the pool or sends something to the server, and what it does next depends on the answer. It is
described apart from any server, so that whatever a server may answer can be considered.
-/

namespace UserDirectory.Sql

inductive Exchange
  | connect
  /-- Has a statement prepared; the connection may keep it for the next time. -/
  | prepare (sql : String) (kept : Bool)
  /-- Runs a prepared statement that reads rows. -/
  | query (s : Statement)
  /-- Runs a prepared statement that changes rows. -/
  | execute (s : Statement)
  /-- Runs a text of any number of statements without parameters. -/
  | batch (sql : String)
  | begin
  | commit
  | rollback
  deriving DecidableEq

/-- What an exchange gives that succeeds: the rows read, or the number of rows changed. -/
abbrev Exchange.Result : Exchange → Type
  | .query _ => List Row
  | .execute _ => Nat
  | _ => Unit

/-- Why an exchange fails. -/
inductive Fault
  | pool (f : PoolFault)
  | database (f : DatabaseFault)
  deriving DecidableEq

def Fault.message : Fault → String
  | .pool f => f.message
  | .database f => f.message

def Fault.toUserError : Fault → UserError
  | .pool f => .databasePool f
  | .database f => f.toUserError

inductive Failure (ε : Type)
  | error (e : ε)
  /-- A row that was read does not hold the values that are needed. -/
  | unreadable
  deriving DecidableEq

/-- A conversation that ends in a value or fails with an error. -/
inductive Conversation (ε α : Type)
  | done (a : α)
  | fail (f : Failure ε)
  | log (event : LogEvent) (next : Conversation ε α)
  | ask (e : Exchange) (next : Except Fault e.Result → Conversation ε α)

namespace Conversation

/-- Goes on with the value that a conversation ends in. -/
def bind (c : Conversation ε α) (f : α → Conversation ε β) : Conversation ε β :=
  match c with
  | .done a => f a
  | .fail e => .fail e
  | .log event next => .log event (next.bind f)
  | .ask e next => .ask e fun answer => (next answer).bind f

instance : Monad (Conversation ε) where
  pure := .done
  bind := .bind

def note (event : LogEvent) : Conversation ε Unit := .log event (.done ())

def throw (e : ε) : Conversation ε α := .fail (.error e)

/-- An exchange; how its failure reads to the caller is said by `blame`. -/
def exchange (blame : Fault → ε) (e : Exchange) : Conversation ε e.Result :=
  .ask e fun
    | .ok result => .done result
    | .error f => throw (blame f)

def read : Option α → Conversation ε α
  | some a => .done a
  | none => .fail .unreadable

def onlyRow (blame : Fault → ε) : List Row → Conversation ε Row
  | [row] => .done row
  | _ => throw (blame (.database .unexpectedRows))

def rollingBack : Conversation ε α → Conversation ε α
  | .done a => .done a
  | .fail f => .ask .rollback fun _ => .fail f
  | .log event next => .log event next.rollingBack
  | .ask e next => .ask e fun answer => (next answer).rollingBack

/-- A conversation inside a transaction, which is committed if it succeeds. -/
def transaction (blame : Fault → ε) (body : Conversation ε α) : Conversation ε α := do
  let a ← rollingBack do
    exchange blame .begin
    body
  exchange blame .commit
  return a

end Conversation

end UserDirectory.Sql
