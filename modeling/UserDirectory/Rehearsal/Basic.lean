import UserDirectory.Cached.Rank
import UserDirectory.Rehearsal.Script

/-!
Rehearsals: a store, its cache and its tasks under a scripted course of events. One task runs at a
time, until it has to wait; tasks that can go on do so in the order in which they came to be able
to. Time stands still while a task can run. Everything that passes the probes is traced.
-/

namespace UserDirectory

/-- What a task waits for. -/
inductive Wait
  /-- Its turn to ask for what its stage needs. -/
  | turn
  /-- A gate in front of its call. -/
  | before
  /-- Its turn to make the call for which it passed a gate. -/
  | call
  /-- A gate behind its call, whose reply it has. -/
  | after (reply : Reply)
  /-- A reply that never comes. -/
  | hang
  | fence
  | replied (reply : Reply)

/-- What a task waits for when the gate is opened that holds it. -/
def Wait.opened : Wait → Wait
  | .after reply => .replied reply
  | _ => .call

structure Task where
  id : TaskId
  stage : Stage
  wait : Wait := .turn
  /-- When the time allowed for the present exchange with the cache is over. -/
  deadline : Option Nat := none
  /-- The place of the task among those that started to wait for a deadline. -/
  timer : Option Nat := none

structure Rehearsal where
  wiring : Wiring
  mint : Mint
  store : Directory := {}
  cache : MemoryCache
  fences : Fences := {}
  now : Nat := 0
  tasks : List Task := []
  /-- The tasks that can run, in the order in which they will. -/
  ready : List TaskId := []
  finished : List (TaskId × StoreReply) := []
  nextTask : TaskId := 0
  nextTimer : Nat := 0
  faults : List ScriptedFault := []
  gates : List Gate := []
  /-- The users whose saves succeeded, latest first. -/
  saved : List User := []
  /-- What was traced, latest first. -/
  trace : List String := []

namespace Rehearsal

/-- The clock by which cache entries expire stands still during a rehearsal. -/
def entryClock : Nat := 0

def note (r : Rehearsal) (entry : String) : Rehearsal := { r with trace := entry :: r.trace }

def log (r : Rehearsal) (events : List LogEvent) : Rehearsal :=
  events.foldl (fun r e => r.note e.render) r

def task? (r : Rehearsal) (id : TaskId) : Option Task := r.tasks.find? (·.id = id)

def setTask (r : Rehearsal) (t : Task) : Rehearsal :=
  { r with tasks := r.tasks.map fun u => if u.id = t.id then t else u }

/-- Starts a task, which runs after all that can run already. -/
def spawn (r : Rehearsal) (s : Stage) : Rehearsal :=
  { r with
    tasks := r.tasks ++ [{ id := r.nextTask, stage := s }]
    ready := r.ready ++ [r.nextTask]
    nextTask := r.nextTask + 1 }

/-- Starts the write-back that a task leaves behind, if any. -/
def spawn? (r : Rehearsal) : Option Stage → Rehearsal
  | none => r
  | some s => r.spawn s

/-- Takes up a job that a client has; one that is in error has ended at once. -/
def begin (r : Rehearsal) (j : Except UserError Job) : TaskId × Rehearsal :=
  (r.nextTask,
    match j with
    | .error e =>
      { r with finished := (r.nextTask, .error e) :: r.finished, nextTask := r.nextTask + 1 }
    | .ok j =>
      match j.start r.wiring r.fences with
      | .stage s => r.spawn s
      | .finished reply =>
        { r with finished := (r.nextTask, reply) :: r.finished, nextTask := r.nextTask + 1 })

/-- Makes a task able to run after all that can run already. -/
def wake (r : Rehearsal) (id : TaskId) : Rehearsal := { r with ready := r.ready ++ [id] }

/-- Hands a fence over to a task that waited for it. -/
def grant (r : Rehearsal) : Option TaskId → Rehearsal
  | none => r
  | some id =>
    match r.task? id with
    | some t => (r.setTask { t with wait := .replied .granted }).wake id
    | none => r

def finish (r : Rehearsal) (id : TaskId) (reply : StoreReply) : Rehearsal :=
  { r with
    tasks := r.tasks.filter (·.id ≠ id)
    finished := (id, reply) :: r.finished }

/-- Uses up the oldest fault that a call at a point meets. -/
def takeFault (point key : String) :
    List ScriptedFault → Option (FaultMode × List ScriptedFault)
  | [] => none
  | f :: rest =>
    if f.times ≠ 0 ∧ f.point.toList.isPrefixOf point.toList ∧ f.key.all (· = key) then
      some (f.mode, { f with times := f.times - 1 } :: rest)
    else (takeFault point key rest).map fun (mode, rest) => (mode, f :: rest)

/-- Makes the oldest armed gate at a point hold a task. -/
def takeGate (point : String) (id : TaskId) : List Gate → Option (String × List Gate)
  | [] => none
  | g :: rest =>
    if g.state = .armed ∧ g.point = point then
      some (g.name, { g with state := .holding id } :: rest)
    else (takeGate point id rest).map fun (name, rest) => (name, g :: rest)

/-- Lets a task go past a point, unless a gate holds it there. -/
def pass (r : Rehearsal) (point : String) (id : TaskId) : Bool × Rehearsal :=
  match takeGate point id r.gates with
  | none => (true, r)
  | some (name, gates) =>
    (false, { r with gates }.note ("blocked " ++ name ++ " at " ++ point))

def cacheEffect (r : Rehearsal) (q : CacheRequest) : CacheReply × Rehearsal :=
  let (reply, cache) := r.cache.serve entryClock q
  (reply, { r with cache })

def storeEffect (r : Rehearsal) (q : StoreRequest) : StoreReply × Rehearsal :=
  let (reply, store) := r.store.serve r.mint q
  let saved := match q, reply with
    | .save _, .ok (.user u) => u :: r.saved
    | _, _ => r.saved
  (reply, { r with store, saved })

/-- Carries out a call that has passed the gate in front of it, and traces it. -/
def perform (r : Rehearsal) : Request → Reply × Rehearsal
  | .cache q =>
    let (reply, r) := r.cacheEffect q
    let word := match reply with
      | .ok a => a.describe
      | .error _ => "miss"
    (.cache reply, r.note (q.describe ++ " " ++ word))
  | .store q =>
    let (reply, r) := r.storeEffect q
    let word := match reply with
      | .ok _ => "ok"
      | .error _ => "error"
    (.store reply, r.note (q.point ++ " " ++ q.argument ++ " " ++ word))
  | .fence _ => (.granted, r)

def point : Request → String
  | .cache q => q.point
  | .store q => q.point
  | .fence _ => ""

/-- Leaves the gates behind at which a task was held. -/
def desert (r : Rehearsal) (id : TaskId) : Rehearsal :=
  { r with
    gates := r.gates.map fun g =>
      if g.state = .holding id then { g with state := .deserted } else g }

/-- Leaves a task waiting, unless the time for its exchange with the cache is over already. -/
def suspend (r : Rehearsal) (t : Task) (w : Wait) : Rehearsal × Task :=
  if t.deadline.any (· ≤ r.now) then
    (r.desert t.id, { t with wait := .replied (.cache (.error .timeout)) })
  else if t.deadline.isSome && t.timer.isNone then
    ({ r with nextTimer := r.nextTimer + 1 }, { t with wait := w, timer := some r.nextTimer })
  else (r, { t with wait := w })

/-- Carries out the call of a task; a gate behind it may hold the task up. -/
def call (r : Rehearsal) (t : Task) (q : Request) : Rehearsal × Task :=
  let (reply, r) := r.perform q
  let (free, r) := r.pass (point q ++ ".after") t.id
  if free then (r, { t with wait := .replied reply }) else r.suspend t (.after reply)

/-- Starts to count the time for a request, unless it is counted already. -/
def allot (r : Rehearsal) (t : Task) : Task :=
  match t.stage.request r.wiring with
  | .cache _ =>
    if t.stage.isContinued then t
    else
      { t with
        deadline := some (r.now + (r.wiring.getD {}).populateTimeoutMs)
        timer := none }
  | _ => { t with deadline := none, timer := none }

def ask (r : Rehearsal) (t : Task) : Rehearsal × Task :=
  let t := r.allot t
  match t.stage.request r.wiring with
  | .fence id =>
    let (free, fences) := r.fences.acquire id t.id
    ({ r with fences }, { t with wait := if free then .replied .granted else .fence })
  | .cache c =>
    match takeFault c.point c.key r.faults with
    | some (mode, faults) =>
      let r := { r with faults }.note (c.describe ++ " " ++ mode.describe)
      match mode.cacheReply with
      | some reply => (r, { t with wait := .replied (.cache reply) })
      | none => r.suspend t .hang
    | none =>
      let (free, r) := r.pass (c.point ++ ".before") t.id
      if free then r.call t (.cache c) else r.suspend t .before
  | .store c =>
    match takeFault c.point c.argument r.faults with
    | some (mode, faults) =>
      ({ r with faults }.note (c.point ++ " " ++ c.argument ++ " fail"),
        { t with wait := .replied (.store (.error mode.storeError)) })
    | none =>
      let (free, r) := r.pass (c.point ++ ".before") t.id
      if free then r.call t (.store c) else r.suspend t .before

/-- Goes on to what follows a turn. -/
def proceed (r : Rehearsal) (t : Task) : Next → Rehearsal
  | .stage s => r.setTask { t with stage := s, wait := .turn }
  | .finished reply => r.finish t.id reply

/-- Carries out a turn of a task. -/
def turn (r : Rehearsal) (t : Task) (u : Turn) : Rehearsal :=
  ((({ r with fences := u.fences }.log u.logs).proceed t u.next).grant u.woken).spawn? u.spawned

/-- Takes a task that can run one stage further, and says whether it can still run. -/
def advanceTask (r : Rehearsal) (t : Task) : Bool × Rehearsal :=
  match t.wait with
  | .turn => hold (r.ask t)
  | .call => hold (r.call t (t.stage.request r.wiring))
  | .replied reply =>
    let u := t.stage.turn r.wiring r.fences reply
    match u.next with
    | .stage _ => (true, r.turn t u)
    | .finished _ => (false, r.turn t u)
  | _ => (false, r)
where
  /-- Keeps a task as it waits after a call. -/
  hold : Rehearsal × Task → Bool × Rehearsal
    | (r, t) =>
      match t.wait with
      | .replied _ => (true, r.setTask t)
      | _ => (false, r.setTask t)

/-- Runs tasks until none can, for at most so many steps. -/
def settleFor : Nat → Rehearsal → Rehearsal
  | 0, r => r
  | fuel + 1, r =>
    match r.ready with
    | [] => r
    | id :: rest =>
      match r.task? id with
      | none => settleFor fuel { r with ready := rest }
      | some t =>
        match r.advanceTask t with
        | (true, r) => settleFor fuel r
        | (false, r) => settleFor fuel { r with ready := r.ready.drop 1 }

/-- Bounds the steps that are left to all tasks together. -/
def work (r : Rehearsal) : Nat :=
  r.tasks.foldl
    (fun n t => n + 4 * t.stage.rank + 4)
    (r.ready.length + 1)

/-- Runs tasks until none can. -/
def settle (r : Rehearsal) : Rehearsal := settleFor r.work r

/-- The tasks that wait for a deadline, with the deadline, those first whose time is up first. -/
def timers (r : Rehearsal) : List (Nat × Task) :=
  let waiting := r.tasks.filterMap fun t =>
    match t.wait, t.deadline with
    | .before, some d | .after _, some d | .hang, some d => some (d, t)
    | _, _ => none
  waiting.mergeSort fun a b =>
    a.1 < b.1 || (a.1 == b.1 && a.2.timer.getD 0 ≤ b.2.timer.getD 0)

/-- Ends an exchange with the cache for lack of time. -/
def expire (r : Rehearsal) (t : Task) : Rehearsal :=
  ((r.desert t.id).setTask { t with wait := .replied (.cache (.error .timeout)) }).wake t.id

/-- Puts the clock forward and ends the exchanges whose deadline has come. -/
def passTo (r : Rehearsal) (time : Nat) : Rehearsal :=
  let r := { r with now := max r.now time }
  (r.timers.filter (·.1 ≤ r.now)).foldl (fun r (_, t) => r.expire t) r

/-- Runs tasks and lets time pass to the next deadline, over and over, until a task has ended or
the time `limit` has come. -/
def awaitFor : Nat → Option Nat → TaskId → Rehearsal → Rehearsal
  | 0, _, _, r => r.settle
  | fuel + 1, limit, id, r =>
    let r := r.settle
    if (r.finished.lookup id).isSome then r
    else
      match r.timers with
      | (d, _) :: _ =>
        if limit.any (· < d) then r.passTo (limit.getD r.now)
        else awaitFor fuel limit id (r.passTo d)
      | [] => r.passTo (limit.getD r.now)

def await (r : Rehearsal) (limit : Option Nat) (id : TaskId) : Rehearsal :=
  awaitFor r.work limit id r

/-- How long a task is waited for. -/
def patience : Nat := 3600000

/-- Waits for a task and takes what it returned; there is nothing if it did not end in time. -/
def join (r : Rehearsal) (id : TaskId) : Option StoreReply × Rehearsal :=
  let r := (r.await (some (r.now + patience)) id).settle
  match r.finished.lookup id with
  | some reply => (some reply, { r with finished := r.finished.filter (·.1 ≠ id) })
  | none => (none, r)

def start (r : Rehearsal) (j : Except UserError Job) : TaskId × Rehearsal :=
  let (id, r) := r.begin j
  (id, r.settle)

def serve (r : Rehearsal) (j : Except UserError Job) : Option StoreReply × Rehearsal :=
  let (id, r) := r.begin j
  r.join id

/-- Creates users one after another, named alike and numbered from `number` on, of which each third
is an administrator; stops at a failure and returns it. -/
def createMany (c : CreateUserCommand) (number : Nat) :
    Nat → Rehearsal → Option StoreReply × Rehearsal
  | 0, r => (some (.ok .done), r)
  | left + 1, r =>
    let c' := { c with firstName := c.firstName ++ toString number, isAdmin := number % 3 = 0 }
    match r.serve (.ok c'.job) with
    | (some (.ok _), r) => createMany c (number + 1) left r
    | other => other

/-- Lets time pass, and runs the tasks whose deadlines came. -/
def advance (r : Rehearsal) (ms : Nat) : Rehearsal := (r.passTo (r.now + ms)).settle

/-- Opens a gate for the call that it holds, if any. -/
def release (r : Rehearsal) (name : String) : Released × Rehearsal :=
  match r.gates.find? (·.name = name) with
  | none => (.unknown, r)
  | some g =>
    let r := { r with gates := r.gates.filter (·.name ≠ name) }
    match g.state with
    | .armed => (.unreached, r)
    | .deserted => (.gone, r)
    | .holding id =>
      match r.task? id with
      | none => (.gone, r)
      | some t =>
        (.released, ((r.setTask { t with wait := t.wait.opened }).wake id).settle)

/-- Takes a task away, also from the gates and from the tasks that can run. -/
def drop (r : Rehearsal) (id : TaskId) : Rehearsal :=
  { r.desert id with
    tasks := r.tasks.filter (·.id ≠ id)
    ready := r.ready.filter (· ≠ id) }

/-- Drops a task. It gives up the fence that it holds or waits for. -/
def cancel (r : Rehearsal) (id : TaskId) : Rehearsal :=
  match r.task? id with
  | none => r
  | some t =>
    match t.stage.fenced? with
    | none => (r.drop id).settle
    | some user =>
      let (woken, fences) := r.fences.abandon user id
      ({ r.drop id with fences }.grant woken).settle

def takeTrace (r : Rehearsal) : List String × Rehearsal :=
  (r.trace.reverse, { r with trace := [] })

end Rehearsal

end UserDirectory
