namespace UserDirectory.Text

/-- A character, or (as `none`) a byte that belongs to no character. -/
abbrev Symbol := Option Char

def bytes (s : String) : List UInt8 := s.toList.flatMap String.utf8EncodeChar

/-- The character that begins a byte sequence, if one does. -/
def firstChar? (bs : List UInt8) : Option Char := (bs.take 4).toByteArray.utf8DecodeChar? 0

/-- The symbols of a byte sequence, left to right. -/
def symbols (bs : List UInt8) : List Symbol :=
  match bs with
  | [] => []
  | b :: rest =>
    match firstChar? (b :: rest) with
    | some c => some c :: symbols (rest.drop (c.utf8Size - 1))
    | none => none :: symbols rest
termination_by bs.length
decreasing_by
  all_goals simp only [List.length_cons, List.length_drop]; omega

/-- How many bytes a symbol stands for. -/
def Symbol.size : Symbol → Nat
  | some c => c.utf8Size
  | none => 1

/-- The text of a byte sequence all of whose bytes belong to characters. -/
def ofBytes? (bs : List UInt8) : Option String := ((symbols bs).mapM id).map String.ofList

end UserDirectory.Text
