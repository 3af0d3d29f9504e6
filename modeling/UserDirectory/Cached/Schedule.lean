import UserDirectory.Cached.System

/-!
Schedules: jobs are started and tasks are called upon in a given order. A task that is called upon
gets what it waits for, or goes on with what it has got; nothing fails and nothing is lost. In a
rough schedule exchanges with the cache may fail, too, and time may pass; it may also be followed
while fences are lost all the time.
-/

namespace UserDirectory

inductive Move
  | start (j : Job)
  | advance (t : TaskId)

inductive RoughMove
  | move (m : Move)
  | fail (t : TaskId) (e : CacheError)
  | elapse (ms : Nat)

namespace System

def start? (w : Wiring) (s : System) (j : Job) : Option (List Event × System) :=
  match j.start w s.fences with
  | .stage st => some ([.began s.nextTask j], s.spawn st)
  | .finished _ => none

/-- The next step of a task, unless it waits for a fence. -/
def advance? (w : Wiring) (mint : Mint) (s : System) (t : TaskId) :
    Option (List Event × System) :=
  match s.tasks t with
  | some ⟨st, .ready⟩ =>
    match st.request w with
    | .cache q =>
      some ([.exchanged t q (s.cache.serve s.now q).1],
        { s with cache := (s.cache.serve s.now q).2 }.setTask t
          (some ⟨st, .replied (.cache (s.cache.serve s.now q).1)⟩))
    | .store q =>
      some ([.served t q (s.store.serve mint q).1],
        { s with store := (s.store.serve mint q).2 }.setTask t
          (some ⟨st, .replied (.store (s.store.serve mint q).1)⟩))
    | .fence id =>
      some ([], { s with fences := (s.fences.acquire id t).2 }.setTask t
        (some ⟨st, if (s.fences.acquire id t).1 then .replied .granted else .queued⟩))
  | some ⟨st, .replied r⟩ =>
    some (.turned t st r :: (st.turn w s.fences r).next.events t, s.turn w t st r)
  | _ => none

def move? (w : Wiring) (mint : Mint) (s : System) : Move → Option (List Event × System)
  | .start j => s.start? w j
  | .advance t => s.advance? w mint t

/-- Follows a schedule to its end. -/
def play? (w : Wiring) (mint : Mint) (s : System) : List Move → Option (List Event × System)
  | [] => some ([], s)
  | m :: rest =>
    match s.move? w mint m with
    | some (es, s') =>
      match s'.play? w mint rest with
      | some (es', s'') => some (es ++ es', s'')
      | none => none
    | none => none

/-- Makes the exchange of a task with the cache fail, whether or not it has been carried out. -/
def fail? (w : Wiring) (s : System) (t : TaskId) (e : CacheError) :
    Option (List Event × System) :=
  match s.tasks t with
  | some ⟨st, _⟩ =>
    match st.request w with
    | .cache q =>
      some ([.exchanged t q (.error e)], s.setTask t (some ⟨st, .replied (.cache (.error e))⟩))
    | _ => none
  | none => none

def roughMove? (w : Wiring) (mint : Mint) (s : System) :
    RoughMove → Option (List Event × System)
  | .move m => s.move? w mint m
  | .fail t e => s.fail? w t e
  | .elapse ms => some ([.elapsed ms], { s with now := s.now + ms })

/-- Follows a rough schedule to its end. -/
def muddle? (w : Wiring) (mint : Mint) (s : System) :
    List RoughMove → Option (List Event × System)
  | [] => some ([], s)
  | m :: rest =>
    match s.roughMove? w mint m with
    | some (es, s') => (s'.muddle? w mint rest).map fun (es', s'') => (es ++ es', s'')
    | none => none

/-- Follows a rough schedule to its end, and loses all fences before each move. -/
def muddleUnfenced? (w : Wiring) (mint : Mint) (s : System) :
    List RoughMove → Option (List Event × System)
  | [] => some ([], s)
  | m :: rest =>
    match { s with fences := { s.fences with used := [] } }.roughMove? w mint m with
    | some (es, s') =>
      (s'.muddleUnfenced? w mint rest).map fun (es', s'') => (es ++ es', s'')
    | none => none

end System

end UserDirectory
