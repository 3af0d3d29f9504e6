namespace UserDirectory

/-- A field that is either given or left out. A given `false` or a given empty text is a value like
any other. -/
inductive Optional (α : Type)
  | absent
  | present (value : α)
  deriving DecidableEq, Repr

namespace Optional

instance : Inhabited (Optional α) := ⟨.absent⟩

def isPresent : Optional α → Bool
  | .present _ => true
  | .absent => false

def isAbsent (o : Optional α) : Bool := !o.isPresent

def toOption : Optional α → Option α
  | .present a => some a
  | .absent => none

def ofOption : Option α → Optional α
  | some a => .present a
  | none => .absent

def getD (o : Optional α) (default : α) : α := o.toOption.getD default

end Optional

end UserDirectory
