namespace UserDirectory.Text

/-- Whether a character has the White_Space property of Unicode. -/
def isBlank (c : Char) : Bool :=
  let n := c.toNat
  (9 ≤ n ∧ n ≤ 13) ∨ (0x2000 ≤ n ∧ n ≤ 0x200a) ∨
    n ∈ [0x20, 0x85, 0xa0, 0x1680, 0x2028, 0x2029, 0x202f, 0x205f, 0x3000]

/-- A text with one space between its words and none at its ends. -/
def singleSpaced (s : String) : String :=
  let words := (s.toList.splitOnP isBlank).filter (!·.isEmpty)
  String.intercalate " " (words.map String.ofList)

end UserDirectory.Text
