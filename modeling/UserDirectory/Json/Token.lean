import UserDirectory.Json.Number
import UserDirectory.Text.Symbols

/-!
The tokens of a JSON text. Every text has a token sequence: where no token can be formed, a token
says why, and the sequence ends with it, because no reader goes past it.
-/

namespace UserDirectory.Json

open UserDirectory.Text

/-- Why a token could not be completed: a wrong character, or the end of the text. -/
inductive Break
  | malformed
  | endOfText
  deriving DecidableEq, Repr

/-- A part of a string literal. -/
inductive Piece
  /-- A character, written raw or with a short escape. -/
  | char (c : Char)
  /-- A raw byte that belongs to no character. -/
  | stray
  /-- A sixteen-bit unit, written with four hexadecimal digits. -/
  | unit (code : Nat)
  deriving DecidableEq, Repr

/-- How a string literal ends: with its closing quote, or before it. -/
inductive Closing
  | quote
  | broken (why : Break)
  deriving DecidableEq, Repr

inductive Token
  | openObject
  | closeObject
  | openList
  | closeList
  | colon
  | comma
  | null
  | bool (b : Bool)
  | number (text : NumberText)
  /-- A number literal that the end of the text leaves without a digit that it needs. -/
  | cutNumber
  | text (pieces : List Piece) (closing : Closing)
  | broken (why : Break)
  deriving DecidableEq, Repr

end UserDirectory.Json
