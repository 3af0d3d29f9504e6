import UserDirectory.Uuid

/-!
Fences order cache writes against invalidations, one fence for each user. An invalidation stamps
the fence with a fresh tick of a clock that all fences share. A read remembers the clock before it
looks at the store, and writes what it found into the cache only if the fence is not newer. Both
hold the fence while they touch the cache; those who wait for it get it in the order they came.
-/

namespace UserDirectory

abbrev TaskId := Nat

/-- The latest stamp of a fence, the task that holds it, and the tasks that wait for it. -/
structure Fence where
  stamp : Nat := 0
  holder : Option TaskId := none
  waiting : List TaskId := []
  deriving DecidableEq, Repr, Inhabited

structure Fences where
  /-- The number of ticks so far. -/
  clock : Nat := 0
  /-- The fences that have been used; any other is in its initial state. -/
  used : List (Uuid × Fence) := []
  deriving Inhabited

namespace Fences

def fence (f : Fences) (id : Uuid) : Fence := (f.used.lookup id).getD {}

def setFence (f : Fences) (id : Uuid) (x : Fence) : Fences :=
  { f with used := (id, x) :: f.used.filter fun (k, _) => k ≠ id }

/-- Takes the fence of a user for a task, or puts the task at the end of those who wait. -/
def acquire (f : Fences) (id : Uuid) (task : TaskId) : Bool × Fences :=
  let x := f.fence id
  match x.holder with
  | none => (true, f.setFence id { x with holder := some task })
  | some _ => (false, f.setFence id { x with waiting := x.waiting ++ [task] })

/-- Passes the fence of a user on to the task that has waited longest, if any. -/
def release (f : Fences) (id : Uuid) : Option TaskId × Fences :=
  let x := f.fence id
  match x.waiting with
  | [] => (none, f.setFence id { x with holder := none })
  | next :: rest => (some next, f.setFence id { x with holder := some next, waiting := rest })

/-- Stamps the fence of a user with a fresh tick. -/
def stamp (f : Fences) (id : Uuid) : Fences :=
  let f := { f with clock := f.clock + 1 }
  f.setFence id { f.fence id with stamp := f.clock }

/-- Makes a task that is dropped give up the fence of a user, whether it holds it or waits. -/
def abandon (f : Fences) (id : Uuid) (task : TaskId) : Option TaskId × Fences :=
  let x := f.fence id
  if x.holder = some task then f.release id
  else (none, f.setFence id { x with waiting := x.waiting.filter (· ≠ task) })

end Fences

end UserDirectory
