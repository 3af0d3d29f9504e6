import UserDirectory.Cached.System

/-!
Systems that may lose fences while tasks hold them or wait for them. Those who come later find a
new fence in place of one that was lost; those who have come before keep the old one. So there may
be any number of copies of the fences, and every task goes by one of them.
-/

namespace UserDirectory

structure SplitSystem where
  store : Directory
  cache : MemoryCache
  /-- The clock that all copies share. -/
  clock : Nat := 0
  /-- The fences of each copy that have been used. -/
  used : Nat → List (Uuid × Fence) := fun _ => []
  now : Nat := 0
  tasks : TaskId → Option Process := fun _ => none
  /-- The copy that a task goes by. -/
  copy : TaskId → Nat := fun _ => 0
  nextTask : TaskId := 0

namespace SplitSystem

def fences (s : SplitSystem) (g : Nat) : Fences := ⟨s.clock, s.used g⟩

/-- What there is of the system for those who go by one copy. -/
def part (s : SplitSystem) (g : Nat) : System where
  store := s.store
  cache := s.cache
  fences := s.fences g
  now := s.now
  tasks t := if s.copy t = g then s.tasks t else none
  nextTask := s.nextTask

/-- Replaces a part. A task that is new goes by the copy of the part. -/
def put (s : SplitSystem) (g : Nat) (x : System) : SplitSystem where
  store := x.store
  cache := x.cache
  clock := x.fences.clock
  used i := if i = g then x.fences.used else s.used i
  now := x.now
  tasks t := if s.copy t = g ∨ s.nextTask ≤ t then x.tasks t else s.tasks t
  copy t := if s.nextTask ≤ t then g else s.copy t
  nextTask := x.nextTask

/-- One step of a system with copies of its fences, and what can be seen of it. -/
inductive Step (w : Wiring) (mint : Mint) : SplitSystem → List Event → SplitSystem → Prop
  | within {s : SplitSystem} {es : List Event} {x : System} (g : Nat)
      (hs : System.Step w mint (s.part g) es x) : Step w mint s es (s.put g x)
  /-- A task that is about to ask for a fence may find it in any copy. -/
  | move {s : SplitSystem} {t : TaskId} {st : Stage} {id : Uuid} (g : Nat)
      (ht : s.tasks t = some ⟨st, .ready⟩) (hq : st.request w = .fence id) :
      Step w mint s [] { s with copy := fun u => if u = t then g else s.copy u }

/-- A course of such steps, and what can be seen of them, earliest first. -/
inductive Run (w : Wiring) (mint : Mint) : SplitSystem → List Event → SplitSystem → Prop
  | refl (s : SplitSystem) : Run w mint s [] s
  | step {s₀ s s' : SplitSystem} {es es' : List Event} (h : Run w mint s₀ es s)
      (hs : Step w mint s es' s') : Run w mint s₀ (es ++ es') s'

end SplitSystem

end UserDirectory
