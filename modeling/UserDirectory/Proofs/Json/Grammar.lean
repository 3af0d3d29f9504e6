import UserDirectory.Json.Token
import UserDirectory.Json.Value

/-!
The grammar of JSON texts as anybody may write them: with blanks between their parts, escapes in
their literals and numbers of any size. It says which words are values and what literals spell, and
nothing about how they are read.
-/

namespace UserDirectory.Json.Grammar

/-- What can stand between the parts of a text. -/
def Blanks (cs : List Char) : Prop := ∀ c ∈ cs, c ∈ [' ', '\t', '\n', '\r']

def Digits (cs : List Char) : Prop := cs ≠ [] ∧ ∀ c ∈ cs, '0' ≤ c ∧ c ≤ '9'

inductive Fraction : List Char → Prop
  | none : Fraction []
  | some (h : Digits digits) : Fraction ('.' :: digits)

inductive Exponent : List Char → Prop
  | none : Exponent []
  | some (hmark : mark ∈ ['e', 'E']) (hsign : sign ∈ [[], ['+'], ['-']]) (h : Digits digits) :
      Exponent (mark :: (sign ++ digits))

/-- A number of any size. It begins with a zero only if no other digit follows before the point. -/
inductive NumberWord : List Char → Prop
  | mk (hsign : sign ∈ [[], ['-']]) (hwhole : Digits whole)
      (hzero : whole.head? = some '0' → whole = ['0']) (hfraction : Fraction fraction)
      (hexponent : Exponent exponent) : NumberWord (sign ++ (whole ++ (fraction ++ exponent)))

/-- What can follow a backslash, and the character that it stands for there. -/
def shortEscapes : List (Char × Char) :=
  [('\"', '\"'), ('\\', '\\'), ('/', '/'), ('b', '\x08'), ('f', '\x0c'), ('n', '\n'), ('r', '\r'),
    ('t', '\t')]

def HexDigit (c : Char) (n : Nat) : Prop :=
  "0123456789abcdef".toList[n]? = some c ∨ "0123456789ABCDEF".toList[n]? = some c

inductive Part : Piece → List Char → Prop
  | raw {c : Char} (hc : ' ' ≤ c) (hquote : c ≠ '\"') (hbackslash : c ≠ '\\') : Part (.char c) [c]
  | short (h : (x, c) ∈ shortEscapes) : Part (.char c) ['\\', x]
  | unit (ha : HexDigit a i) (hb : HexDigit b j) (hc : HexDigit c m) (hd : HexDigit d n) :
      Part (.unit (((i * 16 + j) * 16 + m) * 16 + n)) ['\\', 'u', a, b, c, d]

inductive Parts : List Piece → List Char → Prop
  | nil : Parts [] []
  | cons {p : Piece} {ps : List Piece} {w w' : List Char} (h : Part p w) (hs : Parts ps w') :
      Parts (p :: ps) (w ++ w')

inductive Literal : List Piece → List Char → Prop
  | mk (h : Parts ps w) : Literal ps ('\"' :: (w ++ ['\"']))

/-- The characters that the parts of a literal spell. The sixteen-bit units are those of UTF-16. A
character beyond them is spelled by two, the halves of a pair, and half of a pair by itself spells
nothing. -/
inductive Spells : List Piece → List Char → Prop
  | nil : Spells [] []
  | char {ps : List Piece} {cs : List Char} (c : Char) (h : Spells ps cs) :
      Spells (.char c :: ps) (c :: cs)
  | unit {ps : List Piece} {cs : List Char} {c : Char} (hc : c.toNat < 0x10000)
      (h : Spells ps cs) : Spells (.unit c.toNat :: ps) (c :: cs)
  | pair {ps : List Piece} {cs : List Char} {c : Char} (hc : 0x10000 ≤ c.toNat)
      (h : Spells ps cs) :
      Spells (.unit (0xD800 + (c.toNat - 0x10000) / 0x400) ::
        .unit (0xDC00 + (c.toNat - 0x10000) % 0x400) :: ps) (c :: cs)

/-! Characters that need no escape are written as they are. -/

theorem Parts.raw (cs : List Char) (h : cs.all fun c => ' ' ≤ c ∧ c ≠ '\"' ∧ c ≠ '\\') :
    Parts (cs.map .char) cs := by
  induction cs with
  | nil => exact .nil
  | cons c cs ih =>
      rw [List.all_cons, Bool.and_eq_true] at h
      obtain ⟨hc, hquote, hbackslash⟩ := of_decide_eq_true h.1
      exact .cons (.raw hc hquote hbackslash) (ih h.2)

theorem Spells.raw (cs : List Char) : Spells (cs.map .char) cs := by
  induction cs with
  | nil => exact .nil
  | cons c cs ih => exact .char c ih

/-- The kinds of words inside a text. An element is a value with the blanks around it. -/
inductive Form
  | value
  | element
  | elements
  | member
  | members

/-- Whether a word is well-formed. The keys of members need not differ. -/
inductive Word : Form → List Char → Prop
  | null : Word .value "null".toList
  | true : Word .value "true".toList
  | false : Word .value "false".toList
  | number (h : NumberWord w) : Word .value w
  | text (h : Literal ps l) : Word .value l
  | emptyList (h : Blanks b₁) : Word .value ('[' :: (b₁ ++ [']']))
  | list (h : Word .elements w) : Word .value ('[' :: (w ++ [']']))
  | emptyObject (h : Blanks b₁) : Word .value ('\x7b' :: (b₁ ++ ['\x7d']))
  | object (h : Word .members w) : Word .value ('\x7b' :: (w ++ ['\x7d']))
  | element (hb₁ : Blanks b₁) (h : Word .value w) (hb₂ : Blanks b₂) :
      Word .element (b₁ ++ (w ++ b₂))
  | elements_one (h : Word .element w) : Word .elements w
  | elements_cons (h : Word .element w) (hs : Word .elements w') :
      Word .elements (w ++ ',' :: w')
  | member (hb₁ : Blanks b₁) (hl : Literal ps l) (hb₂ : Blanks b₂) (h : Word .element w) :
      Word .member (b₁ ++ (l ++ (b₂ ++ ':' :: w)))
  | members_one (h : Word .member w) : Word .members w
  | members_cons (h : Word .member w) (hs : Word .members w') : Word .members (w ++ ',' :: w')

/-- The texts and the truth values that words stand for. -/
inductive Denotes : List Char → Value → Prop
  | text (hl : Literal ps l) (hs : Spells ps s.toList) : Denotes l (.text s)
  | true : Denotes "true".toList (.bool true)
  | false : Denotes "false".toList (.bool false)

/-- A member with its key and the word of its value. The key spells a text: a member under half of a
surrogate pair is well-formed as a word, but has no key. -/
inductive Member (k : String) (w : List Char) : List Char → Prop
  | mk (hb₁ : Blanks b₁) (hl : Literal ps l) (hk : Spells ps k.toList) (hb₂ : Blanks b₂)
      (hb₃ : Blanks b₃) (hw : Word .value w) (hb₄ : Blanks b₄) :
      Member k w (b₁ ++ (l ++ (b₂ ++ ':' :: (b₃ ++ (w ++ b₄)))))

inductive Members : List (String × List Char) → List Char → Prop
  | one (h : Member k w cs) : Members [(k, w)] cs
  | cons (h : Member k w cs) (hs : Members ms w') : Members ((k, w) :: ms) (cs ++ ',' :: w')

/-- Texts that hold an object with the given members. -/
inductive ObjectText : List (String × List Char) → List Char → Prop
  | empty (hb₁ : Blanks b₁) (hb₂ : Blanks b₂) (hb₃ : Blanks b₃) :
      ObjectText [] (b₁ ++ '\x7b' :: (b₂ ++ '\x7d' :: b₃))
  | members (hb₁ : Blanks b₁) (h : Members ms cs) (hb₂ : Blanks b₂) :
      ObjectText ms (b₁ ++ '\x7b' :: (cs ++ '\x7d' :: b₂))

end UserDirectory.Json.Grammar
