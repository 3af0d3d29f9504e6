import UserDirectory.Sql.Conversation

namespace UserDirectory.Sql

structure Exchanged where
  exchange : Exchange
  answer : Except Fault exchange.Result

namespace Exchanged

def Succeeds (x : Exchanged) : Prop := ∃ result, x.answer = .ok result

def Fails (x : Exchanged) : Prop := ∃ f, x.answer = .error f

/-- The statement that an exchange has run, if it is a prepared one. -/
def statement? (x : Exchanged) : Option Statement :=
  match x.exchange with
  | .query s => some s
  | .execute s => some s
  | _ => none

end Exchanged

/-- A server may answer an exchange by what has been exchanged before it. -/
abbrev Server := List Exchanged → (e : Exchange) → Except Fault e.Result

namespace Conversation

/-- What has been exchanged when a conversation with a server has ended, and how it has ended.
Before it, `past` had been exchanged. -/
def run (server : Server) (past : List Exchanged) :
    Conversation ε α → List Exchanged × Except (Failure ε) α
  | .done a => (past, .ok a)
  | .fail f => (past, .error f)
  | .log _ next => next.run server past
  | .ask e next => (next (server past e)).run server (past ++ [⟨e, server past e⟩])

/-- Whether a conversation can consist of certain exchanges and end in a certain way. -/
inductive Yields : Conversation ε α → List Exchanged → Except (Failure ε) α → Prop
  | done (a : α) : Yields (.done a) [] (.ok a)
  | fail (f : Failure ε) : Yields (.fail f) [] (.error f)
  | log {event : LogEvent} {next : Conversation ε α} {es : List Exchanged}
      {r : Except (Failure ε) α} (h : Yields next es r) : Yields (.log event next) es r
  | ask {e : Exchange} {next : Except Fault e.Result → Conversation ε α} {es : List Exchanged}
      {r : Except (Failure ε) α} (answer : Except Fault e.Result) (h : Yields (next answer) es r) :
      Yields (.ask e next) (⟨e, answer⟩ :: es) r

end Conversation

/-- What a statement or a text of statements changes. -/
inductive Change
  | statement (s : Statement)
  | text (sql : String)
  deriving DecidableEq

/-- How far a connection is with a transaction. -/
inductive Progress
  | idle
  /-- A transaction is open and has made some changes. -/
  | inside (changes : List Change)
  /-- An exchange has failed in the transaction, which has lost its changes and can make no more. -/
  | broken
  deriving DecidableEq

/-- The changes that wait for the end of their transaction. -/
def Progress.changes : Progress → List Change
  | .inside cs => cs
  | _ => []

/-- A connection and the transactions that were committed over it. A change that is made outside of
a transaction is one of its own. -/
structure Session where
  progress : Progress := .idle
  committed : List (List Change) := []
  deriving DecidableEq

namespace Session

def change (s : Session) (c : Change) : Session :=
  match s.progress with
  | .idle => { s with committed := s.committed ++ [[c]] }
  | .inside cs => { s with progress := .inside (cs ++ [c]) }
  | .broken => s

def spoil (s : Session) : Session :=
  match s.progress with
  | .idle => s
  | _ => { s with progress := .broken }

def commit (s : Session) : Session :=
  match s.progress with
  | .inside cs => { progress := .idle, committed := s.committed ++ [cs] }
  | _ => { s with progress := .idle }

/-- What an exchange does. A transaction that is dropped or rolled back changes nothing. A commit
that fails may have been made all the same: `lost` says whether it was and only its answer is lost.
-/
def after (lost : Bool) (s : Session) : Exchanged → Session
  | ⟨.rollback, _⟩ => { s with progress := .idle }
  | ⟨.commit, .error _⟩ => if lost then s.commit else s.spoil
  | ⟨_, .error _⟩ => s.spoil
  | ⟨.connect, .ok _⟩ => { s with progress := .idle }
  | ⟨.begin, .ok _⟩ => { s with progress := .inside [] }
  | ⟨.execute st, .ok _⟩ => s.change (.statement st)
  | ⟨.batch sql, .ok _⟩ => s.change (.text sql)
  | ⟨.commit, .ok _⟩ => s.commit
  | ⟨.prepare _ _, .ok _⟩ => s
  | ⟨.query _, .ok _⟩ => s

def afterAll (lost : Bool) (s : Session) (es : List Exchanged) : Session := es.foldl (after lost) s

end Session

end UserDirectory.Sql
