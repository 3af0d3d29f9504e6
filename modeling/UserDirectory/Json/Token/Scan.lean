import UserDirectory.Json.Token

namespace UserDirectory.Json

open UserDirectory.Text

namespace Token

def isBlank (c : Char) : Bool := c = ' ' || c = '\n' || c = '\t' || c = '\r'

def digit? : Symbol → Option Nat
  | some c => if '0' ≤ c ∧ c ≤ '9' then some (c.toNat - 48) else none
  | none => none

def hexDigit? : Symbol → Option Nat
  | some c =>
    if '0' ≤ c ∧ c ≤ '9' then some (c.toNat - 48)
    else if 'a' ≤ c ∧ c ≤ 'f' then some (c.toNat - 87)
    else if 'A' ≤ c ∧ c ≤ 'F' then some (c.toNat - 55)
    else none
  | none => none

/-- The digits that begin a text, and what follows them. -/
def spanDigits : List Symbol → List Nat × List Symbol
  | [] => ([], [])
  | x :: s =>
    match digit? x with
    | some d => let (ds, rest) := spanDigits s; (d :: ds, rest)
    | none => ([], x :: s)

/-- The rest of a word of which one character has been read. -/
def scanWord (token : Token) : List Char → List Symbol → Token × List Symbol
  | [], s => (token, s)
  | _ :: _, [] => (.broken .endOfText, [])
  | c :: cs, x :: s => if x = some c then scanWord token cs s else (.broken .malformed, [])

def missingDigit (rest : List Symbol) : Token × List Symbol :=
  if rest = [] then (.cutNumber, []) else (.broken .malformed, [])

def scanExponentDigits (negative minus : Bool) (whole fraction : List Nat) (s : List Symbol) :
    Token × List Symbol :=
  match spanDigits s with
  | ([], rest) => missingDigit rest
  | (ds, rest) =>
    let e : Int := NumberText.ofDigits ds
    (.number ⟨negative, whole, fraction, some (if minus then -e else e)⟩, rest)

def scanExponent (negative : Bool) (whole fraction : List Nat) (s : List Symbol) :
    Token × List Symbol :=
  match s with
  | some '-' :: r => scanExponentDigits negative true whole fraction r
  | some '+' :: r => scanExponentDigits negative false whole fraction r
  | _ => scanExponentDigits negative false whole fraction s

/-- The end of a number whose digits have been read. -/
def scanTail (negative : Bool) (whole fraction : List Nat) (s : List Symbol) :
    Token × List Symbol :=
  match s with
  | some 'e' :: r => scanExponent negative whole fraction r
  | some 'E' :: r => scanExponent negative whole fraction r
  | _ => (.number ⟨negative, whole, fraction, none⟩, s)

def scanFraction (negative : Bool) (whole : List Nat) (s : List Symbol) : Token × List Symbol :=
  match s with
  | some '.' :: r =>
    match spanDigits r with
    | ([], rest) => missingDigit rest
    | (ds, rest) => scanTail negative whole ds rest
  | _ => scanTail negative whole [] s

/-- A number, read after its sign. A zero is followed by no further digit. -/
def scanNumber (negative : Bool) (s : List Symbol) : Token × List Symbol :=
  match spanDigits s with
  | ([], rest) => missingDigit rest
  | (0 :: _ :: _, _) => (.broken .malformed, [])
  | (whole, rest) => scanFraction negative whole rest

def shortEscape? : Char → Option Char
  | '\"' => some '\"'
  | '\\' => some '\\'
  | '/' => some '/'
  | 'b' => some '\x08'
  | 'f' => some '\x0c'
  | 'n' => some '\n'
  | 'r' => some '\r'
  | 't' => some '\t'
  | _ => none

/-- The unit written by four hexadecimal digits. -/
def unitOf? (a b c d : Symbol) : Option Nat := do
  return ((← hexDigit? a) * 16 + (← hexDigit? b)) * 256 + (← hexDigit? c) * 16 + (← hexDigit? d)

/-- Why a unit cannot be read from these symbols: fewer than four bytes are left, or one is no
hexadecimal digit. -/
def unitBreak (s : List Symbol) : Break :=
  if s.foldl (fun n x => n + x.size) 0 < 4 then .endOfText else .malformed

/-- The parts of a string literal up to its end, read after its opening quote. -/
def scanPieces : List Symbol → List Piece × Closing × List Symbol
  | [] => ([], .broken .endOfText, [])
  | none :: s => let (ps, e, r) := scanPieces s; (.stray :: ps, e, r)
  | some '\\' :: s =>
    match s with
    | [] => ([], .broken .endOfText, [])
    | some 'u' :: a :: b :: c :: d :: s' =>
      match unitOf? a b c d with
      | some u => let (ps, e, r) := scanPieces s'; (.unit u :: ps, e, r)
      | none => ([], .broken .malformed, [])
    | some 'u' :: s' => ([], .broken (unitBreak s'), [])
    | some x :: s' =>
      match shortEscape? x with
      | some c => let (ps, e, r) := scanPieces s'; (.char c :: ps, e, r)
      | none => ([], .broken .malformed, [])
    | none :: _ => ([], .broken .malformed, [])
  | some c :: s =>
    if c = '\"' then ([], .quote, s)
    else if c < ' ' then ([], .broken .malformed, [])
    else let (ps, e, r) := scanPieces s; (.char c :: ps, e, r)

/-- The token that begins with `c`, and what follows it. -/
def scan (c : Char) (s : List Symbol) : Token × List Symbol :=
  match c with
  | '\x7b' => (.openObject, s)
  | '\x7d' => (.closeObject, s)
  | '[' => (.openList, s)
  | ']' => (.closeList, s)
  | ':' => (.colon, s)
  | ',' => (.comma, s)
  | 'n' => scanWord .null "ull".toList s
  | 't' => scanWord (.bool true) "rue".toList s
  | 'f' => scanWord (.bool false) "alse".toList s
  | '-' => scanNumber true s
  | '\"' => let (ps, e, r) := scanPieces s; (.text ps e, r)
  | c => if '0' ≤ c ∧ c ≤ '9' then scanNumber false (some c :: s) else (.broken .malformed, [])

theorem spanDigits_length (s : List Symbol) : (spanDigits s).2.length ≤ s.length := by
  induction s with
  | nil => simp [spanDigits]
  | cons x s ih =>
      simp only [spanDigits]
      split
      · simp only [List.length_cons]; omega
      · simp

theorem scanWord_length (t : Token) (cs : List Char) (s : List Symbol) :
    (scanWord t cs s).2.length ≤ s.length := by
  induction cs generalizing s with
  | nil => simp [scanWord]
  | cons c cs ih =>
      cases s with
      | nil => simp [scanWord]
      | cons x s =>
          simp only [scanWord]
          split
          · have := ih s
            simp only [List.length_cons]; omega
          · simp

theorem missingDigit_length (s : List Symbol) : (missingDigit s).2.length ≤ s.length := by
  unfold missingDigit
  split <;> simp

theorem scanExponentDigits_length (n m : Bool) (w f : List Nat) (s : List Symbol) :
    (scanExponentDigits n m w f s).2.length ≤ s.length := by
  have h := spanDigits_length s
  unfold scanExponentDigits
  split
  · rename_i rest heq
    rw [heq] at h
    exact Nat.le_trans (missingDigit_length rest) h
  · rename_i ds rest _ heq
    rw [heq] at h
    exact h

theorem scanExponent_length (n : Bool) (w f : List Nat) (s : List Symbol) :
    (scanExponent n w f s).2.length ≤ s.length := by
  unfold scanExponent
  split
  · exact Nat.le_succ_of_le (scanExponentDigits_length ..)
  · exact Nat.le_succ_of_le (scanExponentDigits_length ..)
  · exact scanExponentDigits_length ..

theorem scanTail_length (n : Bool) (w f : List Nat) (s : List Symbol) :
    (scanTail n w f s).2.length ≤ s.length := by
  unfold scanTail
  split
  · rename_i r
    have := scanExponent_length n w f r
    simp only [List.length_cons]; omega
  · rename_i r
    have := scanExponent_length n w f r
    simp only [List.length_cons]; omega
  · exact Nat.le_refl _

theorem scanFraction_length (n : Bool) (w : List Nat) (s : List Symbol) :
    (scanFraction n w s).2.length ≤ s.length := by
  unfold scanFraction
  split
  · rename_i r
    have h := spanDigits_length r
    split
    · rename_i rest heq
      rw [heq] at h
      have := missingDigit_length rest
      simp only [List.length_cons] at h ⊢; omega
    · rename_i ds rest _ heq
      rw [heq] at h
      have := scanTail_length n w ds rest
      simp only [List.length_cons] at h ⊢; omega
  · exact scanTail_length n w [] s

theorem scanNumber_length_of_spanDigits {n : Bool} {s : List Symbol} {k : Nat}
    (h : (spanDigits s).2.length ≤ k) : (scanNumber n s).2.length ≤ k := by
  unfold scanNumber
  split
  · rename_i rest heq
    rw [heq] at h
    exact Nat.le_trans (missingDigit_length rest) h
  · simp
  · rename_i whole rest _ _ heq
    rw [heq] at h
    exact Nat.le_trans (scanFraction_length n whole rest) h

theorem scanNumber_length (n : Bool) (s : List Symbol) : (scanNumber n s).2.length ≤ s.length :=
  scanNumber_length_of_spanDigits (spanDigits_length s)

theorem scanNumber_length_of_digit {n : Bool} {x : Symbol} {s : List Symbol}
    (h : (digit? x).isSome) : (scanNumber n (x :: s)).2.length ≤ s.length := by
  apply scanNumber_length_of_spanDigits
  obtain ⟨d, hd⟩ := Option.isSome_iff_exists.mp h
  simp only [spanDigits, hd]
  exact spanDigits_length s

theorem scanPieces_length (s : List Symbol) : (scanPieces s).2.2.length ≤ s.length := by
  fun_induction scanPieces s <;> simp_all <;> omega

theorem scan_length (c : Char) (s : List Symbol) : (scan c s).2.length ≤ s.length := by
  unfold scan
  split <;> try exact Nat.le_refl _
  · exact scanWord_length ..
  · exact scanWord_length ..
  · exact scanWord_length ..
  · exact scanNumber_length ..
  · exact scanPieces_length s
  · split
    · apply scanNumber_length_of_digit
      simp_all [digit?]
    · simp

def scanAll (s : List Symbol) : List Token :=
  match s with
  | [] => []
  | none :: _ => [.broken .malformed]
  | some c :: rest =>
    if isBlank c then scanAll rest
    else
      have := scan_length c rest
      (scan c rest).1 :: scanAll (scan c rest).2
termination_by s.length

end Token

def tokens (bs : List UInt8) : List Token := Token.scanAll (symbols bs)

end UserDirectory.Json
