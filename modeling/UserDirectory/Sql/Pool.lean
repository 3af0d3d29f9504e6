import UserDirectory.Config
import UserDirectory.Log
import UserDirectory.Sql.ConnectionString

namespace UserDirectory.Sql

/-- Why a connection cannot be opened. -/
inductive DialFault
  /-- The connection string does not say where the servers are. -/
  | incompleteTarget
  | unreachable
  deriving DecidableEq, Repr

def DialFault.message : DialFault → String
  | .incompleteTarget => "invalid configuration"
  | .unreachable => "error connecting to server"

/-- A pool opens connections when they are asked for, up to its size. -/
structure Pool where
  maxSize : Nat
  /-- Why no connection can be opened, if so. -/
  obstacle : Option DialFault
  /-- How many connections are open and wait to be used. -/
  available : Nat := 0
  deriving DecidableEq, Repr

namespace Pool

def defaultSize : Nat := 16

/-- Takes a connection while others are held. -/
def take (p : Pool) (held : Nat) : Except PoolFault Unit :=
  if p.maxSize ≤ held then .error .noSlot
  else
    match p.obstacle with
    | some f => .error (.notCreated f.message)
    | none => .ok ()

/-- Takes connections one after another and holds on to those that it gets: how many it holds in
the end, and what is logged. Of `count` connections, `left` are still to be taken. -/
def takeAll (p : Pool) (count : Nat) : (left held : Nat) → Nat × List LogEvent
  | 0, held => (held, [])
  | left + 1, held =>
    let number := toString (count - left)
    match p.take held with
    | .ok () =>
      let (held, events) := p.takeAll count left (held + 1)
      (held, ⟨.debug, "Pre-warmed connection " ++ number ++ "/" ++ toString count, []⟩ :: events)
    | .error f =>
      let (held, events) := p.takeAll count left held
      (held, ⟨.warn, "Failed to pre-warm connection " ++ number ++ ": " ++ f.message, []⟩ :: events)

/-- Opens connections beforehand. -/
def prewarm (p : Pool) (count : Nat) : Pool × List LogEvent :=
  let (available, events) := p.takeAll count count 0
  let before := "Pre-warming pool with " ++ toString count ++ " connections"
  let after := "Pool pre-warming complete: " ++ toString available ++ " connections available"
  ({ p with available }, ⟨.debug, before, []⟩ :: events ++ [⟨.info, after, []⟩])

/-- How a setting that may be missing is logged. -/
def optionText : Option Nat → String
  | some n => "Some(" ++ toString n ++ ")"
  | none => "None"

/-- Makes the pool for a configuration. Whether servers can be reached is said by `isReachable`. -/
def ofConfig (isReachable : ConnectionTarget → Bool) (c : PostgresDbConfig) :
    Except DatabaseFault Pool × List LogEvent :=
  let opening : LogEvent :=
    ⟨.info, "Connecting to postgres",
      [("postgres.max_conn", optionText c.maxConn), ("postgres.min_conn", optionText c.minConn),
        ("postgres.sql_logger", toString c.logger)]⟩
  match ConnectionTarget.ofString c.uri with
  | .error f => (.error f, [opening])
  | .ok t =>
    let obstacle :=
      if !t.isComplete then some .incompleteTarget
      else if !isReachable t then some .unreachable
      else none
    let p : Pool := { maxSize := c.maxConn.getD defaultSize, obstacle }
    match c.minConn with
    | some count => let (p, events) := p.prewarm count; (.ok p, opening :: events)
    | none => (.ok p, [opening])

end Pool

end UserDirectory.Sql
