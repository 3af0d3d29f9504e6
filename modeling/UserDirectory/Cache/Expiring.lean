/-!
Maps whose entries expire. How long an entry is kept is decided anew when it is made, overwritten or
read. An entry whose time is over is not read any more, but it stays until the map is tidied; then
such entries go, and any others as long as the map holds more than it is meant to.
-/

namespace UserDirectory

/-- How long entries are kept from now on; without a time they are kept for ever. An entry that is
overwritten or read has had some time left. -/
structure Expiry (α : Type) where
  afterCreate (key : String) (value : α) (now : Nat) : Option Nat
  afterUpdate (key : String) (value : α) (now : Nat) (left : Option Nat) : Option Nat
  afterRead (_ : String) (_ : α) (_ : Nat) (left : Option Nat) : Option Nat := left

/-- A value that is kept until a time, if not for ever. -/
structure Dated (α : Type) where
  value : α
  deadline : Option Nat

namespace Dated

def isLive (e : Dated α) (now : Nat) : Bool := e.deadline.all (now < ·)

/-- The time that is left. -/
def left (e : Dated α) (now : Nat) : Option Nat := e.deadline.map (· - now)

end Dated

structure ExpiringMap (α : Type) where
  capacity : Nat
  entries : List (String × Dated α) := []

namespace ExpiringMap

/-- What is kept under a key, whether or not its time is over. -/
def find? (m : ExpiringMap α) (key : String) : Option (Dated α) := m.entries.lookup key

/-- Keeps a value for a time from now on. -/
def keep (m : ExpiringMap α) (now : Nat) (key : String) (value : α) (time : Option Nat) :
    ExpiringMap α :=
  { m with
    entries := (key, ⟨value, time.map (now + ·)⟩) :: m.entries.filter fun (k, _) => k ≠ key }

def insert (x : Expiry α) (m : ExpiringMap α) (now : Nat) (key : String) (value : α) :
    ExpiringMap α :=
  m.keep now key value
    (match m.find? key with
      | some e => x.afterUpdate key value now (e.left now)
      | none => x.afterCreate key value now)

def get (x : Expiry α) (m : ExpiringMap α) (now : Nat) (key : String) :
    Option α × ExpiringMap α :=
  match m.find? key with
  | some e =>
    if e.isLive now then
      (some e.value, m.keep now key e.value (x.afterRead key e.value now (e.left now)))
    else (none, m)
  | none => (none, m)

def remove (m : ExpiringMap α) (key : String) : ExpiringMap α :=
  { m with entries := m.entries.filter fun (k, _) => k ≠ key }

/-- Drops the entry under a key if it need not be kept. -/
def tidy (m : ExpiringMap α) (now : Nat) (key : String) : ExpiringMap α :=
  if m.capacity < m.entries.length ∨ (m.find? key).all (!·.isLive now) then m.remove key else m

end ExpiringMap

/-- Bytes and how long they are to be kept. -/
structure TimedBytes where
  bytes : List UInt8
  lifetime : Nat

/-- Entries are kept for the lifetime that they were written with. -/
def TimedBytes.expiry : Expiry TimedBytes where
  afterCreate _ e _ := some e.lifetime
  afterUpdate _ e _ _ := some e.lifetime

end UserDirectory
