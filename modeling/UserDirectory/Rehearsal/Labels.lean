import UserDirectory.User
import UserDirectory.Uuid.Text

namespace UserDirectory

/-- Labels for minted identifiers, which differ from run to run. Users and versions are numbered
separately, in the order in which they are first seen. -/
structure Labels where
  users : Array Uuid := #[]
  versions : Array Uuid := #[]

namespace Labels

def addUser (l : Labels) (u : Uuid) : Labels :=
  if u ∈ l.users then l else { l with users := l.users.push u }

def addVersion (l : Labels) (u : Uuid) : Labels :=
  if u ∈ l.versions then l else { l with versions := l.versions.push u }

def label? (l : Labels) (u : Uuid) : Option String :=
  ((l.users.idxOf? u).map fun i => "$u" ++ toString (i + 1)) <|>
    (l.versions.idxOf? u).map fun i => "$v" ++ toString (i + 1)

def uuid? (l : Labels) (kind : Char) (number : Nat) : Option Uuid :=
  let table := if kind = 'u' then l.users else if kind = 'v' then l.versions else #[]
  if number = 0 then none else table[number - 1]?

/-- The label of the identifier that a text begins with. -/
def leading? (l : Labels) (cs : List Char) : Option String :=
  if cs[8]? = some '-' then (Uuid.ofHyphenated? (cs.take 36)).bind l.label? else none

/-- Writes labels for the identifiers in a text. -/
def hideFrom (l : Labels) (cs : List Char) : List Char :=
  match cs with
  | [] => []
  | c :: rest =>
    match l.leading? (c :: rest) with
    | some label => label.toList ++ l.hideFrom (rest.drop 35)
    | none => c :: l.hideFrom rest
termination_by cs.length
decreasing_by
  all_goals simp only [List.length_cons, List.length_drop]; omega

def hide (l : Labels) (s : String) : String := String.ofList (l.hideFrom s.toList)

/-- Writes identifiers for the labels in a text. -/
def revealFrom (l : Labels) (cs : List Char) : List Char :=
  match cs with
  | '$' :: kind :: rest =>
    let ds := rest.takeWhile Char.isDigit
    match l.uuid? kind (ds.foldl (fun n d => n * 10 + (d.toNat - 48)) 0) with
    | some u => u.chars ++ l.revealFrom (rest.drop ds.length)
    | none => '$' :: l.revealFrom (kind :: rest)
  | c :: rest => c :: l.revealFrom rest
  | [] => []
termination_by cs.length
decreasing_by
  all_goals simp only [List.length_cons, List.length_drop]; omega

def reveal (l : Labels) (s : String) : String := String.ofList (l.revealFrom s.toList)

end Labels

end UserDirectory
