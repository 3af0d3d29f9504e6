import UserDirectory.Text.Symbols

namespace UserDirectory.Text

theorem firstChar?_utf8EncodeChar_append (c : Char) (bs : List UInt8) :
    firstChar? (String.utf8EncodeChar c ++ bs) = some c := by
  have hle : (String.utf8EncodeChar c).length ≤ 4 := by
    rw [String.length_utf8EncodeChar]
    exact c.utf8Size_le_four
  rw [firstChar?, List.take_append, List.take_of_length_le hle, List.toByteArray_append]
  exact ByteArray.utf8DecodeChar?_utf8EncodeChar_append

theorem symbols_utf8EncodeChar_append (c : Char) (bs : List UInt8) :
    symbols (String.utf8EncodeChar c ++ bs) = some c :: symbols bs := by
  have hfirst := firstChar?_utf8EncodeChar_append c bs
  have hlength := String.length_utf8EncodeChar c
  rcases henc : String.utf8EncodeChar c with _ | ⟨b, rest⟩
  · have hpos := c.utf8Size_pos
    rw [← hlength, henc] at hpos
    cases hpos
  · rw [henc, List.length_cons] at hlength
    rw [henc, List.cons_append] at hfirst
    rw [List.cons_append, symbols, hfirst]
    simp only [List.cons.injEq, true_and]
    rw [← hlength, Nat.add_sub_cancel, List.drop_left]

theorem symbols_bytes (s : String) : symbols (bytes s) = s.toList.map some := by
  rw [bytes]
  induction s.toList with
  | nil => rw [List.flatMap_nil, symbols, List.map_nil]
  | cons c cs ih => rw [List.flatMap_cons, symbols_utf8EncodeChar_append, ih, List.map_cons]

end UserDirectory.Text
