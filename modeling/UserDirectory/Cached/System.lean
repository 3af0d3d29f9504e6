import UserDirectory.Cached.Stage

/-!
Any number of tasks over one store, one cache and one set of fences. A task asks for what its stage
needs and goes on when it has the reply; between the two, and between one stage and the next, every
other task may take steps. The cache may fail at any time, lose entries, and be written by others.
-/

namespace UserDirectory

/-- How far a task is at its stage. -/
inductive Standing
  /-- What the stage needs has not been given to the task. -/
  | ready
  /-- The task waits for the fence that it asked for. -/
  | queued
  | replied (r : Reply)
  deriving DecidableEq

/-- A task that has not ended. -/
structure Process where
  stage : Stage
  standing : Standing := .ready
  deriving DecidableEq

structure System where
  store : Directory
  cache : MemoryCache
  fences : Fences := {}
  /-- The time by which cache entries expire, in milliseconds. -/
  now : Nat := 0
  tasks : TaskId → Option Process := fun _ => none
  /-- The name of the next task; no name is used twice. -/
  nextTask : TaskId := 0

/-- What can be seen of a step. -/
inductive Event
  | began (t : TaskId) (j : Job)
  /-- A client's call fails before it asks for anything. -/
  | rejected (t : TaskId) (e : UserError)
  /-- A request of a task to the cache is answered, or fails with an error. -/
  | exchanged (t : TaskId) (q : CacheRequest) (r : CacheReply)
  | served (t : TaskId) (q : StoreRequest) (r : StoreReply)
  /-- The store is out of service for a request of a task. -/
  | refused (t : TaskId) (q : StoreRequest) (e : UserError)
  /-- A task goes on from a stage with the reply that it waited for. -/
  | turned (t : TaskId) (s : Stage) (r : Reply)
  | returned (t : TaskId) (r : StoreReply)
  | cancelled (t : TaskId)
  /-- The cache loses an entry. -/
  | evicted (key : String)
  /-- Somebody else writes an entry into the cache. -/
  | meddled (key : String)
  | elapsed (ms : Nat)
  deriving DecidableEq

/-- Whether something has failed or was lost, or somebody else has stepped in. That the cache does
not have what it is asked for is no fault. -/
def Event.IsFault : Event → Prop
  | .exchanged _ (.get _) (.error e) => e ≠ .keyNotFound
  | .exchanged _ _ (.error _) => True
  | .refused _ _ _ | .cancelled _ | .evicted _ | .meddled _ => True
  | _ => False

namespace Next

def process? : Next → Option Process
  | .stage s => some ⟨s, .ready⟩
  | .finished _ => none

/-- A task that ends returns its reply. -/
def events (t : TaskId) : Next → List Event
  | .stage _ => []
  | .finished r => [.returned t r]

end Next

namespace System

def setTask (s : System) (t : TaskId) (p : Option Process) : System :=
  { s with tasks := fun u => if u = t then p else s.tasks u }

/-- Hands a fence over to a task that waited for it. -/
def grant (s : System) : Option TaskId → System
  | none => s
  | some t => s.setTask t ((s.tasks t).map fun p => { p with standing := .replied .granted })

def spawn (s : System) (st : Stage) : System :=
  { s.setTask s.nextTask (some ⟨st, .ready⟩) with nextTask := s.nextTask + 1 }

/-- Starts the write-back that a task leaves behind, if any. -/
def spawn? (s : System) : Option Stage → System
  | none => s
  | some st => s.spawn st

def turn (w : Wiring) (s : System) (t : TaskId) (st : Stage) (r : Reply) : System :=
  let u := st.turn w s.fences r
  (({ s with fences := u.fences }.setTask t u.next.process?).grant u.woken).spawn? u.spawned

/-- Drops a task; it gives up the fence that it holds or waits for. -/
def cancel (s : System) (t : TaskId) (p : Process) : System :=
  let s := s.setTask t none
  match p.stage.fenced? with
  | none => s
  | some id => { s with fences := (s.fences.abandon id t).2 }.grant (s.fences.abandon id t).1

/-- One step of a system, and what can be seen of it. A request to the cache that fails may have
been carried out before. -/
inductive Step (w : Wiring) (mint : Mint) : System → List Event → System → Prop
  | begin {s : System} {j : Job} {st : Stage} (h : j.start w s.fences = .stage st) :
      Step w mint s [.began s.nextTask j] (s.spawn st)
  | reject {s : System} (e : UserError) :
      Step w mint s [.rejected s.nextTask e] { s with nextTask := s.nextTask + 1 }
  | exchange {s : System} {t : TaskId} {st : Stage} {q : CacheRequest}
      (ht : s.tasks t = some ⟨st, .ready⟩) (hq : st.request w = .cache q) :
      Step w mint s [.exchanged t q (s.cache.serve s.now q).1]
        ({ s with cache := (s.cache.serve s.now q).2 }.setTask t
          (some ⟨st, .replied (.cache (s.cache.serve s.now q).1)⟩))
  | fail {s : System} {t : TaskId} {st : Stage} {sd : Standing} {q : CacheRequest} {e : CacheError}
      (ht : s.tasks t = some ⟨st, sd⟩) (hq : st.request w = .cache q) :
      Step w mint s [.exchanged t q (.error e)]
        (s.setTask t (some ⟨st, .replied (.cache (.error e))⟩))
  | serve {s : System} {t : TaskId} {st : Stage} {q : StoreRequest}
      (ht : s.tasks t = some ⟨st, .ready⟩) (hq : st.request w = .store q) :
      Step w mint s [.served t q (s.store.serve mint q).1]
        ({ s with store := (s.store.serve mint q).2 }.setTask t
          (some ⟨st, .replied (.store (s.store.serve mint q).1)⟩))
  | refuse {s : System} {t : TaskId} {st : Stage} {q : StoreRequest} {e : UserError}
      (ht : s.tasks t = some ⟨st, .ready⟩) (hq : st.request w = .store q)
      (he : e.kind ≠ .notFound) :
      Step w mint s [.refused t q e] (s.setTask t (some ⟨st, .replied (.store (.error e))⟩))
  | ask {s : System} {t : TaskId} {st : Stage} {id : Uuid}
      (ht : s.tasks t = some ⟨st, .ready⟩) (hq : st.request w = .fence id) :
      Step w mint s []
        ({ s with fences := (s.fences.acquire id t).2 }.setTask t
          (some ⟨st, if (s.fences.acquire id t).1 then .replied .granted else .queued⟩))
  | turn {s : System} {t : TaskId} {st : Stage} {r : Reply}
      (ht : s.tasks t = some ⟨st, .replied r⟩) :
      Step w mint s (.turned t st r :: (st.turn w s.fences r).next.events t) (s.turn w t st r)
  | cancel {s : System} {t : TaskId} {p : Process} (ht : s.tasks t = some p) :
      Step w mint s [.cancelled t] (s.cancel t p)
  | evict {s : System} (key : String) :
      Step w mint s [.evicted key] { s with cache := s.cache.remove key }
  | meddle {s : System} (key : String) (bytes : List UInt8) (lifetime : Nat) :
      Step w mint s [.meddled key] { s with cache := s.cache.set s.now key bytes lifetime }
  | elapse {s : System} (ms : Nat) : Step w mint s [.elapsed ms] { s with now := s.now + ms }

/-- A course of steps, and what can be seen of them, earliest first. -/
inductive Run (w : Wiring) (mint : Mint) : System → List Event → System → Prop
  | refl (s : System) : Run w mint s [] s
  | step {s₀ s s' : System} {es es' : List Event} (h : Run w mint s₀ es s)
      (hs : Step w mint s es' s') : Run w mint s₀ (es ++ es') s'

end System

end UserDirectory
