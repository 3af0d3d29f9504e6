import Mathlib.Data.List.FinRange
import Mathlib.Logic.Function.Basic
import UserDirectory.Sql.Migrator
import UserDirectory.Sql.Transcript

/-!
Migrators at work on one database, which answers one exchange of one of them at a time. An exchange
that fails has changed nothing, but for a commit of which only the answer is lost; what a
transaction has changed is seen by others when it has been committed. The recorded names are
distinct: a name that is recorded already is not inserted again, and one that an open transaction
has inserted has to wait for the end of that transaction. Texts of migrations neither end
transactions nor change the recorded names.
-/

namespace UserDirectory.Sql

/-- The name that a change records. -/
def Change.recorded? : Change → Option String
  | .statement ⟨sql, [.text name]⟩ => if sql = (recordMigration name).sql then some name else none
  | _ => none

namespace Session

/-- The names that transactions have recorded which are committed. -/
def recorded (s : Session) : List String := s.committed.flatten.filterMap Change.recorded?

/-- The names that the open transaction records if it is committed. -/
def reserved (s : Session) : List String := s.progress.changes.filterMap Change.recorded?

end Session

namespace Migrator

inductive Job
  | run
  | pending
  deriving DecidableEq

def Job.talk (ms : List Migration) : Job → Talk (List String)
  | .run => Migrator.run ms
  | .pending => Migrator.pending ms

/-- A migrator, what it has exchanged and how it will go on. A run makes no exchange after a commit
that fails, so that `lost` is about one commit at most. -/
structure Party where
  rest : Talk (List String)
  past : List Exchanged := []
  /-- Whether a commit that fails is made, and only its answer is lost. -/
  lost : Bool := false

def Party.session (p : Party) : Session := Session.afterAll p.lost {} p.past

variable {n : Nat} (initial : List String) (ps : Fin n → Party)

def IsRecorded (name : String) : Prop := name ∈ initial ∨ ∃ i, name ∈ (ps i).session.recorded

def IsReserved (name : String) : Prop := ∃ i, name ∈ (ps i).session.reserved

instance (name : String) : Decidable (IsRecorded initial ps name) :=
  inferInstanceAs (Decidable (_ ∨ _))

instance (name : String) : Decidable (IsReserved ps name) :=
  inferInstanceAs (Decidable (∃ _, _))

/-- Whether the database may answer an exchange in a certain way. -/
def Admits : (e : Exchange) → Except Fault e.Result → Prop
  | .query s, .ok rows =>
    (∀ name, s = countRecords name →
      ∃ count : Nat, rows = [[some (.int count)]] ∧ (0 < count ↔ IsRecorded initial ps name)) ∧
    (s = recordedNames → ∃ names : List String, rows = names.map (fun name => [some (.text name)]) ∧
      ∀ name, name ∈ names ↔ IsRecorded initial ps name)
  | .execute s, .ok _ =>
    ∀ name, s = recordMigration name → ¬ IsRecorded initial ps name ∧ ¬ IsReserved ps name
  | _, _ => True

/-- One migrator goes on; what it logs is not seen by the others. -/
inductive Step : (Fin n → Party) → (Fin n → Party) → Prop
  | logged {ps : Fin n → Party} (i : Fin n) {event : LogEvent} {next : Talk (List String)}
      (h : (ps i).rest = .log event next) :
      Step ps (Function.update ps i { ps i with rest := next })
  | answered {ps : Fin n → Party} (i : Fin n) {e : Exchange}
      {next : Except Fault e.Result → Talk (List String)} (answer : Except Fault e.Result)
      (h : (ps i).rest = .ask e next) (hadmits : Admits initial ps e answer) :
      Step ps (Function.update ps i
        { ps i with rest := next answer, past := (ps i).past ++ [⟨e, answer⟩] })

/-- What several migrators can come to, each of which goes on at any time. -/
inductive Reaches : (Fin n → Party) → (Fin n → Party) → Prop
  | refl (ps : Fin n → Party) : Reaches ps ps
  | tail {ps ps' ps'' : Fin n → Party} (h : Reaches ps ps') (hstep : Step initial ps' ps'') :
      Reaches ps ps''

def start (ms : List Migration) (jobs : Fin n → Job) (lost : Fin n → Bool) (i : Fin n) : Party where
  rest := (jobs i).talk ms
  lost := lost i

/-- How a database answers that does not fail by itself. -/
def answer : (e : Exchange) → Except Fault e.Result
  | .query s =>
    match s.params with
    | [.text name] => .ok [[some (.int (if IsRecorded initial ps name then 1 else 0))]]
    | _ =>
      let names := initial ++ (List.finRange n).flatMap fun i => (ps i).session.recorded
      .ok (names.map fun name => [some (.text name)])
  | .execute s =>
    match (Change.statement s).recorded? with
    | some name =>
      if IsRecorded initial ps name ∨ IsReserved ps name then
        .error (.database (.server "23505" "duplicate key value violates unique constraint"))
      else .ok 1
    | none => .ok 0
  | .connect => .ok ()
  | .prepare _ _ => .ok ()
  | .batch _ => .ok ()
  | .begin => .ok ()
  | .commit => .ok ()
  | .rollback => .ok ()

/-- One migrator goes on; a fault given is the answer in place of the database's own. -/
def move (choice : Fin n × Option Fault) : Fin n → Party :=
  match (ps choice.1).rest with
  | .log _ next => Function.update ps choice.1 { ps choice.1 with rest := next }
  | .ask e next =>
    let reply := choice.2.elim (answer initial ps e) .error
    Function.update ps choice.1
      { ps choice.1 with rest := next reply, past := (ps choice.1).past ++ [⟨e, reply⟩] }
  | _ => ps

end Migrator

end UserDirectory.Sql
