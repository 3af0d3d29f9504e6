import Mathlib.Data.List.Forall2
import Mathlib.Tactic.ByContra
import Mathlib.Tactic.SplitIfs
import UserDirectory.Json.Printer
import UserDirectory.Json.Reader
import UserDirectory.Proofs.Text.Symbols

namespace UserDirectory.Json

open UserDirectory.Text

/-- The part of a string literal that stands for a character as it is written. -/
def pieceOf (c : Char) : Piece :=
  if (escapeChar c).length = 6 then .unit c.toNat else .char c

def textToken (s : String) : Token := .text (s.toList.map pieceOf) .quote

namespace Token

theorem hexDigit?_lowerHexDigit : ∀ d < 16, hexDigit? (some (lowerHexDigit d)) = some d := by
  decide

theorem toNat_lt_of_lt_space {c : Char} (h : c < ' ') : c.toNat < 32 := h

theorem unitOf?_control {c : Char} (h : c < ' ') :
    unitOf? (some '0') (some '0') (some (lowerHexDigit (c.toNat / 16)))
      (some (lowerHexDigit (c.toNat % 16))) = some c.toNat := by
  have hlt := toNat_lt_of_lt_space h
  have hhigh := hexDigit?_lowerHexDigit (c.toNat / 16) (by omega)
  have hlow := hexDigit?_lowerHexDigit (c.toNat % 16) (by omega)
  have hzero : hexDigit? (some '0') = some 0 := by decide
  simp only [unitOf?, hzero, hhigh, hlow, Option.bind_eq_bind, Option.bind_some, Option.pure_def]
  congr 1
  omega

theorem scanPieces_escapeChar (c : Char) (s : List Symbol) :
    scanPieces ((escapeChar c).map some ++ s) =
      (pieceOf c :: (scanPieces s).1, (scanPieces s).2) := by
  by_cases h₁ : c = '\"'
  · subst c
    rfl
  by_cases h₂ : c = '\\'
  · subst c
    rfl
  by_cases h₃ : c = '\x08'
  · subst c
    rfl
  by_cases h₄ : c = '\x0c'
  · subst c
    rfl
  by_cases h₅ : c = '\n'
  · subst c
    rfl
  by_cases h₆ : c = '\r'
  · subst c
    rfl
  by_cases h₇ : c = '\t'
  · subst c
    rfl
  by_cases h₈ : c < ' '
  · have hesc : escapeChar c =
        ['\\', 'u', '0', '0', lowerHexDigit (c.toNat / 16), lowerHexDigit (c.toNat % 16)] := by
      simp [escapeChar, h₁, h₂, h₃, h₄, h₅, h₆, h₇, h₈]
    have hpiece : pieceOf c = .unit c.toNat := by simp [pieceOf, hesc]
    rw [hesc, hpiece]
    simp [scanPieces, unitOf?_control h₈]
  · have hesc : escapeChar c = [c] := by
      simp [escapeChar, h₁, h₂, h₃, h₄, h₅, h₆, h₇, h₈]
    have hpiece : pieceOf c = .char c := by simp [pieceOf, hesc]
    rw [hesc, hpiece]
    simp [scanPieces, h₁, h₈]

theorem scanPieces_written (cs : List Char) (s : List Symbol) :
    scanPieces ((cs.flatMap escapeChar).map some ++ some '\"' :: s) =
      (cs.map pieceOf, .quote, s) := by
  induction cs with
  | nil => simp [scanPieces]
  | cons c cs ih =>
      rw [List.flatMap_cons, List.map_append, List.append_assoc, scanPieces_escapeChar, ih,
        List.map_cons]

theorem scanAll_cons {c : Char} (hc : isBlank c = false) (s : List Symbol) :
    scanAll (some c :: s) = (scan c s).1 :: scanAll (scan c s).2 := by
  rw [scanAll]
  simp [hc]

theorem scanAll_quoteChars (s : String) (rest : List Symbol) :
    scanAll ((quoteChars s.toList).map some ++ rest) = textToken s :: scanAll rest := by
  have hwritten := scanPieces_written s.toList rest
  rw [quoteChars, List.cons_append, List.map_cons, List.cons_append, scanAll_cons rfl,
    List.map_append, List.append_assoc]
  simp [scan, hwritten, textToken]

end Token

theorem unitChars_pieceOf (c : Char) (ps : List Piece) (e : Closing) :
    unitChars (pieceOf c :: ps) e = (unitChars ps e).map (c :: ·) := by
  rw [pieceOf]
  split
  · rename_i h
    have hlt : c < ' ' := by
      by_contra hge
      simp only [escapeChar, if_neg hge] at h
      split_ifs at h <;> cases h
    have hn := Token.toNat_lt_of_lt_space hlt
    have hlow : isLowHalf c.toNat = false := by
      simp [isLowHalf]
      omega
    have hhigh : isHighHalf c.toNat = false := by
      simp [isHighHalf]
      omega
    rw [unitChars.eq_def]
    simp [hlow, hhigh]
  · rw [unitChars]

theorem unitChars_written (cs : List Char) : unitChars (cs.map pieceOf) .quote = .ok cs := by
  induction cs with
  | nil => rfl
  | cons c cs ih =>
      rw [List.map_cons, unitChars_pieceOf, ih]
      rfl

theorem textOf_written (s : String) : textOf (s.toList.map pieceOf) .quote = .ok s := by
  rw [textOf, unitChars_written]
  exact congrArg Except.ok String.ofList_toList

/-- A value that is written as one token. -/
inductive Leaf : Value → Token → Prop
  | text (s : String) : Leaf (.text s) (textToken s)
  | bool (b : Bool) : Leaf (.bool b) (.bool b)

def memberTokens : List (String × Token) → List Token
  | [] => [.closeObject]
  | [(k, t)] => [textToken k, .colon, t, .closeObject]
  | (k, t) :: m :: rest => textToken k :: .colon :: t :: .comma :: memberTokens (m :: rest)

theorem Leaf.scanAll {v : Value} {t : Token} (h : Leaf v t) (rest : List Symbol) :
    Token.scanAll (v.chars.map some ++ rest) = t :: Token.scanAll rest := by
  cases h with
  | text s =>
      rw [Value.chars]
      exact Token.scanAll_quoteChars s rest
  | bool b =>
      cases b with
      | true =>
          rw [Value.chars]
          exact Token.scanAll_cons rfl _
      | false =>
          rw [Value.chars]
          exact Token.scanAll_cons rfl _

theorem scanAll_memberChars {ms : List (String × Value)} {ts : List (String × Token)}
    (h : List.Forall₂ (fun m t => m.1 = t.1 ∧ Leaf m.2 t.2) ms ts) (rest : List Symbol) :
    Token.scanAll ((Value.memberChars ms).map some ++ rest) =
      memberTokens ts ++ Token.scanAll rest := by
  have hcolon : ∀ s, Token.scanAll (some ':' :: s) = .colon :: Token.scanAll s :=
    Token.scanAll_cons rfl
  have hcomma : ∀ s, Token.scanAll (some ',' :: s) = .comma :: Token.scanAll s :=
    Token.scanAll_cons rfl
  have hclose : ∀ s, Token.scanAll (some '\x7d' :: s) = .closeObject :: Token.scanAll s :=
    Token.scanAll_cons rfl
  induction h with
  | nil => exact hclose rest
  | @cons m t ms ts hm htail ih =>
      obtain ⟨k, v⟩ := m
      obtain ⟨k', tok⟩ := t
      obtain ⟨rfl, hleaf⟩ := hm
      cases htail with
      | nil =>
          simp [Value.memberChars, memberTokens, Token.scanAll_quoteChars, hcolon, hleaf.scanAll,
            hclose]
      | cons hm' htail' =>
          obtain ⟨k', v'⟩ := ‹String × Value›
          simp only [Value.memberChars, memberTokens, List.map_append, List.map_cons,
            List.append_assoc, List.cons_append, Token.scanAll_quoteChars, hcolon, hleaf.scanAll,
            hcomma]
          rw [ih]

theorem tokens_object {ms : List (String × Value)} {ts : List (String × Token)}
    (h : List.Forall₂ (fun m t => m.1 = t.1 ∧ Leaf m.2 t.2) ms ts) :
    tokens (bytes (Value.object ms).render) = .openObject :: memberTokens ts := by
  have hnil : Token.scanAll [] = [] := by rw [Token.scanAll]
  have hmembers := scanAll_memberChars h []
  rw [List.append_nil, hnil, List.append_nil] at hmembers
  rw [tokens, symbols_bytes, Value.render, String.toList_ofList, Value.chars, List.map_cons,
    Token.scanAll_cons rfl]
  exact congrArg _ hmembers

end UserDirectory.Json
