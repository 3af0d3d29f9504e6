namespace UserDirectory.Text

/-- The number with the given decimal digits; none unless there is a digit and nothing else. -/
def natural? (cs : List Char) : Option Nat :=
  if cs ≠ [] ∧ cs.all Char.isDigit then some (cs.foldl (fun n c => n * 10 + (c.toNat - 48)) 0)
  else none

/-- Reads an integer between two bounds. A sign may stand before the digits, a minus sign only if
there are negative integers between the bounds. -/
def integer? (lo hi : Int) (cs : List Char) : Option Int :=
  let value? : Option Int :=
    match cs with
    | '+' :: ds => (natural? ds).map Int.ofNat
    | '-' :: ds => if lo < 0 then (natural? ds).map fun n => -Int.ofNat n else none
    | ds => (natural? ds).map Int.ofNat
  value?.filter fun i => lo ≤ i ∧ i ≤ hi

end UserDirectory.Text
