import UserDirectory.Sql.Conversation
import UserDirectory.Text.Blank

namespace UserDirectory

open UserDirectory.Sql

inductive ReplyEffect
  | result (rows : List Row) (affected : Nat)
  | refuse (code message : String)
  | hangUp
  deriving DecidableEq

structure ScriptedReply where
  /-- The stage that the reply waits for, if it is not for the next statement that is run. -/
  stage : Option String := none
  effect : ReplyEffect := .result [] 0
  deriving DecidableEq

inductive TraceEntry
  | statement (s : Statement)
  | command (text : String)
  | refused (sql : String)
  | event (e : LogEvent)
  deriving DecidableEq

/-- The server, and the pool with the one connection to it that is ever open at a time. -/
structure ScriptedServer where
  poolIsClosed : Bool := false
  isConnected : Bool := false
  /-- The prepared statements that the connection keeps. -/
  kept : List String := []
  replies : List ScriptedReply := []
  /-- What happened, latest first. -/
  trace : List TraceEntry := []

namespace ScriptedServer

def record (d : ScriptedServer) (t : TraceEntry) : ScriptedServer :=
  { d with trace := t :: d.trace }

/-- Takes a connection from the pool, which opens one if it has none. -/
def connect (d : ScriptedServer) : Except Fault Unit × ScriptedServer :=
  if d.poolIsClosed then (.error (.pool .closed), d)
  else if d.isConnected then (.ok (), d)
  else (.ok (), { d with isConnected := true, kept := [] })

def react (d : ScriptedServer) : ReplyEffect → Except Fault (List Row × Nat) × ScriptedServer
  | .result rows affected => (.ok (rows, affected), d)
  | .refuse code message => (.error (.database (.server code message)), d)
  | .hangUp => (.error (.database .connectionClosed), { d with isConnected := false })

/-- Takes the next reply; a server without replies answers with an empty result. -/
def reply (d : ScriptedServer) : Except Fault (List Row × Nat) × ScriptedServer :=
  match d.replies with
  | r :: rest => { d with replies := rest }.react r.effect
  | [] => (.ok ([], 0), d)

/-- Takes the next reply if it waits for the stage. -/
def replyAt (d : ScriptedServer) (stage : String) :
    Option (Except Fault (List Row × Nat) × ScriptedServer) :=
  match d.replies with
  | r :: rest =>
    if r.stage = some stage then some ({ d with replies := rest }.react r.effect) else none
  | [] => none

/-- Prepares a statement, unless the connection has kept it. -/
def prepare (d : ScriptedServer) (sql : String) (kept : Bool) :
    Except Fault Unit × ScriptedServer :=
  if kept ∧ sql ∈ d.kept then (.ok (), d)
  else
    match d.replyAt "prepare" with
    | some (answer, d) => (answer.map fun _ => (), d.record (.refused sql))
    | none => (.ok (), if kept then { d with kept := sql :: d.kept } else d)

/-- Obeys a command that opens or ends a transaction. -/
def obey (d : ScriptedServer) (command : String) : Except Fault Unit × ScriptedServer :=
  let d := d.record (.command command)
  match d.replyAt command with
  | some (answer, d) => (answer.map fun _ => (), d)
  | none => (.ok (), d)

def run (d : ScriptedServer) (s : Statement) : Except Fault (List Row × Nat) × ScriptedServer :=
  (d.record (.statement s)).reply

def send (d : ScriptedServer) : (e : Exchange) → Except Fault e.Result × ScriptedServer
  | .connect => d.connect
  | .prepare sql kept => d.prepare sql kept
  | .query s => let (answer, d) := d.run s; (answer.map (·.1), d)
  | .execute s => let (answer, d) := d.run s; (answer.map (·.2), d)
  | .batch sql =>
    let (answer, d) := (d.record (.command (Text.singleSpaced sql))).reply
    (answer.map fun _ => (), d)
  | .begin => d.obey "START TRANSACTION"
  | .commit => d.obey "COMMIT"
  | .rollback => (.ok (), d.record (.command "ROLLBACK"))

/-- The answer to an exchange. Nothing is sent over a lost connection. -/
def answer (d : ScriptedServer) (e : Exchange) : Except Fault e.Result × ScriptedServer :=
  if d.isConnected ∨ e = .connect then d.send e else (.error (.database .connectionClosed), d)

def converse (d : ScriptedServer) : Conversation ε α → Except (Failure ε) α × ScriptedServer
  | .done a => (.ok a, d)
  | .fail f => (.error f, d)
  | .log event next => (d.record (.event event)).converse next
  | .ask e next =>
    let (answer, d) := d.answer e
    d.converse (next answer)

/-- Takes what happened, earliest first, and drops the replies that are left. -/
def takeTrace (d : ScriptedServer) : List TraceEntry × ScriptedServer :=
  (d.trace.reverse, { d with trace := [], replies := [] })

end ScriptedServer

end UserDirectory
