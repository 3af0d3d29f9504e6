import Mathlib.Data.List.Basic
import UserDirectory.Proofs.Sql.Selection
import UserDirectory.Sql.Projection

namespace UserDirectory.Sql

/-! Words. -/

def isBreak (c : Char) : Bool := c = ' ' || isMark c

/-- What a character that separates words gives itself. -/
def markWords (c : Char) : List String := if isMark c then [String.ofList [c]] else []

theorem wordsOf_append_blank (as bs : List Char) :
    wordsOf (as ++ ' ' :: bs) = wordsOf as ++ wordsOf bs := by
  have hblank : (if isMark ' ' then [' ', ' ', ' '] else [' ']) = [' '] := by decide
  rw [wordsOf, List.flatMap_append, List.flatMap_cons, hblank, List.singleton_append,
    List.splitOn_append_cons_self, List.filter_append, List.map_append]
  rfl

theorem wordsOf_append_break {c : Char} (hc : isBreak c = true) (as bs : List Char) :
    wordsOf (as ++ c :: bs) = wordsOf as ++ markWords c ++ wordsOf bs := by
  by_cases hblank : c = ' '
  · rw [hblank, wordsOf_append_blank]
    simp [markWords, show isMark ' ' = false by decide]
  · have hmark : isMark c = true := by
      rw [isBreak, Bool.or_eq_true, decide_eq_true_eq] at hc
      exact hc.resolve_left hblank
    have hspaced : ([' ', c, ' '] ++ bs.flatMap fun c => if isMark c then [' ', c, ' '] else [c]) =
        ' ' :: ([c] ++ ' ' :: bs.flatMap fun c => if isMark c then [' ', c, ' '] else [c]) := rfl
    have halone : [c].splitOn ' ' = [[c]] :=
      List.splitOn_eq_singleton (by simpa using Ne.symm hblank)
    rw [wordsOf, List.flatMap_append, List.flatMap_cons, if_pos hmark, hspaced,
      List.splitOn_append_cons_self, List.splitOn_append_cons_self, halone]
    simp [wordsOf, markWords, hmark]

theorem words_append_of_last {a : String} {c : Char} (ha : a.toList.getLast? = some c)
    (hc : isBreak c = true) (b : String) : words (a ++ b) = words a ++ words b := by
  obtain ⟨cs, hcs⟩ := List.getLast?_eq_some_iff.mp ha
  have hnil : wordsOf [] = [] := by decide
  rw [words, words, words, String.toList_append, hcs, List.append_assoc, List.singleton_append,
    wordsOf_append_break hc, wordsOf_append_break hc, hnil, List.append_nil]

theorem words_append_of_head {b : String} {c : Char} (hb : b.toList.head? = some c)
    (hc : isBreak c = true) (a : String) : words (a ++ b) = words a ++ words b := by
  obtain ⟨cs, hcs⟩ := List.head?_eq_some_iff.mp hb
  have hnil : wordsOf [] = [] := by decide
  have hfront := wordsOf_append_break hc [] cs
  rw [List.nil_append, hnil, List.nil_append] at hfront
  rw [words, words, words, String.toList_append, hcs, wordsOf_append_break hc, hfront,
    List.append_assoc]

/-- A text that is one word, and no comma or bracket. -/
def IsWord (word : String) : Prop := word ≠ "" ∧ word.toList.all (!isBreak ·) = true
  deriving Decidable

namespace IsWord

variable {word : String}

theorem isBreak_eq (h : IsWord word) {c : Char} (hc : c ∈ word.toList) : isBreak c = false := by
  have hplain := List.all_eq_true.mp h.2 c hc
  rwa [Bool.not_eq_true'] at hplain

theorem words_eq (h : IsWord word) : words word = [word] := by
  have hsame : (word.toList.flatMap fun c => if isMark c then [' ', c, ' '] else [c]) =
      word.toList := by
    have hplain : ∀ c ∈ word.toList, (if isMark c then [' ', c, ' '] else [c]) = [c] := by
      intro c hc
      have hbreak := h.isBreak_eq hc
      rw [isBreak, Bool.or_eq_false_iff] at hbreak
      rw [hbreak.2]
      rfl
    rw [List.flatMap_congr hplain, List.flatMap_singleton']
  have hblank : ' ' ∉ word.toList := fun hmem => absurd (h.isBreak_eq hmem) (by decide)
  rw [words, wordsOf, hsame, List.splitOn_eq_singleton hblank]
  simp [h.1]

theorem ne_comma (h : IsWord word) : word ≠ "," := by
  rintro rfl
  exact absurd h (by decide)

theorem ne_close (h : IsWord word) : word ≠ ")" := by
  rintro rfl
  exact absurd h (by decide)

end IsWord

theorem isWord_place (n : Nat) : IsWord (place n) := by
  have hdigits : (toString n).toList = Nat.toDigits 10 n := Nat.toList_repr
  constructor
  · intro hempty
    have htext := toList_place n
    rw [hempty] at htext
    cases htext
  · rw [List.all_eq_true]
    intro c hc
    rw [toList_place, hdigits] at hc
    rcases List.mem_cons.mp hc with rfl | hc
    · decide
    · have hdigit : c.isDigit = true := Nat.isDigit_of_mem_toDigits (by decide) (by decide) hc
      rw [isBreak, isMark, Bool.not_eq_true', Bool.eq_false_iff]
      intro hbreak
      simp only [Bool.or_eq_true, decide_eq_true_eq] at hbreak
      rcases hbreak with rfl | (rfl | rfl) | rfl <;> exact absurd hdigit (by decide)

theorem words_commaSeparated {list : List String} (h : ∀ word ∈ list, IsWord word) :
    words (commaSeparated list) = list.intersperse "," := by
  have hcomma : words ", " = [","] := by decide
  induction list with
  | nil => decide
  | cons word list ih =>
      have hword := (h word List.mem_cons_self).words_eq
      have hrest := ih fun other hother => h other (List.mem_cons_of_mem word hother)
      cases list with
      | nil => rw [commaSeparated, String.intercalate_singleton, hword]; rfl
      | cons next list =>
          have hhead : (", " ++ commaSeparated (next :: list)).toList.head? = some ',' := by
            rw [String.toList_append]
            rfl
          rw [commaSeparated, String.intercalate_cons_cons, String.append_assoc, ← commaSeparated,
            words_append_of_head hhead rfl, words_append_of_last (c := ' ') rfl rfl, hword, hcomma,
            hrest, List.intersperse_cons_cons]
          rfl

/-! Insertions. -/

theorem mem_intersperse {α : Type*} {x sep : α} {list : List α} (h : x ∈ list.intersperse sep) :
    x = sep ∨ x ∈ list := by
  induction list with
  | nil => cases h
  | cons a list ih =>
      cases list with
      | nil => exact Or.inr h
      | cons b list =>
          rw [List.intersperse_cons_cons, List.mem_cons, List.mem_cons] at h
          rcases h with rfl | rfl | h
          · exact Or.inr List.mem_cons_self
          · exact Or.inl rfl
          · exact (ih h).imp_right (List.mem_cons_of_mem a)

theorem filter_intersperse {α : Type*} [DecidableEq α] {sep : α} {list : List α}
    (h : ∀ x ∈ list, x ≠ sep) : (list.intersperse sep).filter (· ≠ sep) = list := by
  induction list with
  | nil => rfl
  | cons a list ih =>
      have ha := h a List.mem_cons_self
      have hrest := ih fun x hx => h x (List.mem_cons_of_mem a hx)
      cases list with
      | nil => simp [ha]
      | cons b list =>
          rw [List.intersperse_cons_cons, List.filter_cons, List.filter_cons, hrest,
            if_pos (decide_eq_true ha), if_neg (by simp)]

def placesOf (n : Nat) : List String := (List.range' 1 n).map place

theorem isWord_of_mem_placesOf {n : Nat} {word : String} (h : word ∈ placesOf n) : IsWord word := by
  obtain ⟨k, -, rfl⟩ := List.mem_map.mp h
  exact isWord_place k

theorem words_sql_insertion {i : Insertion} (htable : IsWord i.table)
    (hcolumns : ∀ column ∈ i.columns, IsWord column) :
    words i.sql = "INSERT" :: "INTO" :: i.table :: "(" :: (i.columns.intersperse "," ++
      ")" :: "VALUES" :: "(" :: ((placesOf i.columns.length).intersperse "," ++ [")"])) := by
  have hopen : ∀ text, (" (" ++ text : String).toList.head? = some ' ' := by
    intro text
    rw [String.toList_append]
    rfl
  have hclose : ∀ text, (") VALUES (" ++ text : String).toList.head? = some ')' := by
    intro text
    rw [String.toList_append]
    rfl
  have hinsert : words "INSERT INTO " = ["INSERT", "INTO"] := by decide +kernel
  have hvalues : words ") VALUES (" = [")", "VALUES", "("] := by decide +kernel
  have hbrackets : words " (" = ["("] ∧ words ")" = [")"] := by decide +kernel
  have hsql : i.sql = "INSERT INTO " ++ i.table ++ " (" ++ commaSeparated i.columns ++
      ") VALUES (" ++ commaSeparated (placesOf i.columns.length) ++ ")" := rfl
  simp only [hsql, String.append_assoc]
  rw [words_append_of_last (c := ' ') rfl rfl, words_append_of_head (hopen _) rfl,
    words_append_of_last (c := '(') rfl rfl, words_append_of_head (hclose _) rfl,
    words_append_of_last (c := '(') rfl rfl, words_append_of_head (c := ')') rfl rfl, hinsert,
    hvalues, hbrackets.1, hbrackets.2, htable.words_eq, words_commaSeparated hcolumns,
    words_commaSeparated fun _ h => isWord_of_mem_placesOf h]
  rfl

theorem readList?_intersperse {list : List String} (h : ∀ word ∈ list, IsWord word)
    (tail : List String) : readList? (list.intersperse "," ++ ")" :: tail) = some (list, tail) := by
  have hopen : ∀ word ∈ list.intersperse ",", decide (word ≠ ")") = true := by
    intro word hword
    rcases mem_intersperse hword with rfl | hmem
    · decide
    · exact decide_eq_true (h word hmem).ne_close
  have hclose : (")" :: tail).dropWhile (· ≠ ")") = ")" :: tail := rfl
  have hend : (")" :: tail).takeWhile (· ≠ ")") = [] := rfl
  rw [readList?, List.dropWhile_append_of_pos hopen, List.takeWhile_append_of_pos hopen, hclose,
    hend, List.append_nil, filter_intersperse fun word hword => (h word hword).ne_comma]

theorem mapM_bound? (before params : List Datum) :
    ((List.range' (before.length + 1) params.length).map place).mapM
      (fun word => do bound? (before ++ params) (← placeOf? word)) = some params := by
  induction params generalizing before with
  | nil => rfl
  | cons x params ih =>
      have hfirst : bound? (before ++ x :: params) (before.length + 1) = some x := by simp [bound?]
      have hrest := ih (before ++ [x])
      rw [List.append_assoc, List.singleton_append, List.length_append,
        List.length_singleton] at hrest
      simp only [List.length_cons, List.range'_succ, List.map_cons, List.mapM_cons, placeOf?_place,
        Option.bind_eq_bind, Option.bind_some, hfirst] at hrest ⊢
      rw [hrest]
      rfl

theorem readInsertion?_sql {i : Insertion} (htable : IsWord i.table)
    (hcolumns : ∀ column ∈ i.columns, IsWord column) :
    readInsertion? (words i.sql) = some (i, placesOf i.columns.length) := by
  have hplaces := readList?_intersperse (fun _ => isWord_of_mem_placesOf (n := i.columns.length)) []
  rw [words_sql_insertion htable hcolumns, readInsertion?, readList?_intersperse hcolumns]
  simp only [Option.bind_eq_bind, Option.bind_some, hplaces]
  rfl

/-- An insertion stores each of its parameters in the column at its position. -/
theorem stored?_insertion {i : Insertion} {params : List Datum} (htable : IsWord i.table)
    (hcolumns : ∀ column ∈ i.columns, IsWord column) (hlength : i.columns.length = params.length) :
    Statement.stored? ⟨i.sql, params⟩ = some (i.table, i.columns.zip params) := by
  have hvalues := mapM_bound? [] params
  rw [List.length_nil, List.nil_append, ← hlength, Nat.zero_add, ← placesOf] at hvalues
  rw [Statement.stored?, readInsertion?_sql htable hcolumns]
  simp only [Option.bind_eq_bind, Option.bind_some] at hvalues ⊢
  rw [hvalues, Option.bind_some, hlength, guard, if_pos rfl]
  rfl

/-! Queries. -/

theorem dropWhile_append_of_eq_cons {α : Type*} {p : α → Bool} {list rest : List α} {a : α}
    (h : list.dropWhile p = a :: rest) (tail : List α) :
    (list ++ tail).dropWhile p = a :: (rest ++ tail) := by
  rw [List.dropWhile_append, if_neg (by rw [h]; exact Bool.false_ne_true), h, List.cons_append]

theorem takeWhile_append_of_eq_cons {α : Type*} {p : α → Bool} {list rest : List α} {a : α}
    (h : list.dropWhile p = a :: rest) (tail : List α) :
    (list ++ tail).takeWhile p = list.takeWhile p := by
  have hsplit : list.takeWhile p ++ a :: rest = list := by
    rw [← h]
    exact List.takeWhile_append_dropWhile
  have hshort : (list.takeWhile p).length ≠ list.length := by
    intro hall
    have hlength := congrArg List.length hsplit
    rw [List.length_append, hall, List.length_cons] at hlength
    omega
  rw [List.takeWhile_append, if_neg hshort]

theorem Projection.read?_append {list rest : List String} {p : Projection}
    (h : read? list = some (p, rest)) (tail : List String) :
    read? (list ++ tail) = some (p, rest ++ tail) := by
  unfold read? at h
  split at h
  · rename_i list
    split at h
    · rename_i word table row rest' hfrom
      rw [List.cons_append, read?]
      simp only [dropWhile_append_of_eq_cons hfrom tail, takeWhile_append_of_eq_cons hfrom tail,
        List.cons_append, Option.bind_eq_bind, Option.bind_eq_some_iff] at h ⊢
      obtain ⟨items, hitems, hp⟩ := h
      cases hp
      exact ⟨items, hitems, rfl⟩
    · cases h
  · cases h

namespace JoinedProjection

theorem read?_append {list : List String} {q : JoinedProjection} (h : read? list = some q)
    (tail : List String) : read? (list ++ tail) = some q := by
  obtain ⟨⟨outer, joined⟩, houter, h⟩ := Option.bind_eq_some_iff.mp h
  rw [read?, Projection.read?_append houter]
  simp only [Option.bind_eq_bind, Option.bind_some] at h ⊢
  split at h
  · obtain ⟨⟨inner, joined⟩, hinner, h⟩ := Option.bind_eq_some_iff.mp h
    simp only [List.cons_append, Projection.read?_append hinner, Option.bind_some] at h ⊢
    split at h
    · rename_i hfound
      simp only [dropWhile_append_of_eq_cons hfound tail, List.cons_append]
      exact h
    · cases h
  · cases h

theorem read?_star (list : List String) :
    read? ("SELECT" :: "*" :: "FROM" :: "(" :: list) = none := by
  have hstar : [["*"]].mapM SelectItem.ofWords? = none := by decide +kernel
  have hitems : Projection.read? ("SELECT" :: "*" :: "FROM" :: "(" :: list) = none := by
    cases list with
    | nil => rfl
    | cons row list =>
        show (do return (⟨← [["*"]].mapM SelectItem.ofWords?, "(", row⟩, list)) = none
        rw [hstar]
        rfl
  rw [read?, hitems]
  rfl

theorem ofWords?_of_read? {list : List String} {q : JoinedProjection} (h : read? list = some q) :
    ofWords? list = some q := by
  unfold ofWords?
  split
  · rw [read?_star] at h
    cases h
  · exact h

theorem ofWords?_append {list : List String} {q : JoinedProjection} (h : ofWords? list = some q)
    (tail : List String) : ofWords? (list ++ tail) = some q := by
  unfold ofWords? at h
  split at h
  · exact read?_append h tail
  · exact ofWords?_of_read? (read?_append h tail)

/-- A text that goes on with a new word does not change what is read before. -/
theorem of?_append {sql tail : String} {q : JoinedProjection} {c : Char} (h : of? sql = some q)
    (htail : tail.toList.head? = some c) (hc : isBreak c = true) : of? (sql ++ tail) = some q := by
  rw [of?, words_append_of_head htail hc]
  exact ofWords?_append h (words tail)

theorem of?_inBrackets {sql : String} {q : JoinedProjection} (h : read? (words sql) = some q)
    (name : String) : of? ("SELECT * FROM (" ++ sql ++ ") AS " ++ name) = some q := by
  have hstar : words "SELECT * FROM (" = ["SELECT", "*", "FROM", "("] := by decide +kernel
  have hclose : (") AS " ++ name : String).toList.head? = some ')' := by
    rw [String.toList_append]
    rfl
  rw [String.append_assoc, String.append_assoc, of?, words_append_of_last (c := '(') rfl rfl,
    words_append_of_head hclose rfl, hstar]
  exact read?_append h (words (") AS " ++ name))

end JoinedProjection

end UserDirectory.Sql
