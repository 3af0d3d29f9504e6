namespace UserDirectory.Json

/-- A literal as written: its sign, its digits before and after the point, and its exponent. -/
structure NumberText where
  negative : Bool
  whole : List Nat
  fraction : List Nat
  exponent : Option Int
  deriving DecidableEq, Repr

/-- The value of a literal, as far as a reader can tell it. -/
inductive Number
  | integer (value : Int)
  | floating
  deriving DecidableEq, Repr, Inhabited

namespace NumberText

def ofDigits (ds : List Nat) : Nat := ds.foldl (fun n d => n * 10 + d) 0

/-- The leading digits that fit in 64 bits, and how many digits follow them. -/
def significand (whole : List Nat) : Nat × Nat :=
  whole.foldl
    (fun (n, extra) d =>
      if extra = 0 ∧ n * 10 + d < 0x10000000000000000 then (n * 10 + d, 0) else (n, extra + 1))
    (0, 0)

/-- Appends the digits of a fraction to a significand for as long as it fits in 64 bits; also
counts them. -/
def appendFraction : Nat → List Nat → Nat × Nat
  | n, [] => (n, 0)
  | n, d :: ds =>
    if n * 10 + d < 0x10000000000000000 then
      let (m, count) := appendFraction (n * 10 + d) ds
      (m, count + 1)
    else (n, 0)

/-- The significand and the power of ten that it is scaled by. -/
def scientific (t : NumberText) : Nat × Int :=
  let (n, extra) := significand t.whole
  let (m, count) := appendFraction n t.fraction
  (m, (extra : Int) - count + t.exponent.getD 0)

/-- The nearest number with at most 53 significant bits; a tie goes to the even neighbour. -/
def round53 (n : Nat) : Nat :=
  let shift := n.log2 + 1 - 53
  let unit := Nat.pow 2 shift
  let q := n / unit
  let r := n % unit
  let up := 2 * r > unit ∨ (2 * r = unit ∧ q % 2 = 1)
  (if up then q + 1 else q) * unit

/-- Half a step above the largest double-precision number. -/
def largestBound : Nat := Nat.pow 2 1024 - Nat.pow 2 970

/-- Whether a literal lies beyond the largest double-precision number. -/
def isOutOfRange (t : NumberText) : Bool :=
  let (n, e) := t.scientific
  n ≠ 0 && decide (0 ≤ e) &&
    (decide (308 < e) || decide (largestBound ≤ round53 n * round53 (Nat.pow 10 e.toNat)))

/-- Whether a literal has neither a fraction nor an exponent. -/
def isWhole (t : NumberText) : Bool := t.fraction.isEmpty && t.exponent.isNone

/-- The value of a literal; a literal out of range has none. -/
def value? (t : NumberText) : Option Number :=
  let n := ofDigits t.whole
  if t.isWhole ∧ !t.negative ∧ n < 0x10000000000000000 then some (.integer n)
  else if t.isWhole ∧ t.negative ∧ n ≠ 0 ∧ n ≤ 0x8000000000000000 then some (.integer (-n))
  else if t.isOutOfRange then none
  else some .floating

end NumberText

end UserDirectory.Json
