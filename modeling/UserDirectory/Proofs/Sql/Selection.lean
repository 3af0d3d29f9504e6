import Mathlib.Data.List.Basic
import Mathlib.Data.Option.Basic
import UserDirectory.Sql.FilterQuery
import UserDirectory.Sql.Selection

namespace UserDirectory

theorem Text.natural?_toString (n : Nat) : Text.natural? (toString n).toList = some n := by
  have hdigits : (toString n).toList = Nat.toDigits 10 n := Nat.toList_repr
  have hne : Nat.toDigits 10 n ≠ [] := Nat.toDigits_ne_nil
  have hall : (Nat.toDigits 10 n).all Char.isDigit = true :=
    List.all_eq_true.mpr fun _ hc => Nat.isDigit_of_mem_toDigits (by decide) (by decide) hc
  have hvalue : (Nat.toDigits 10 n).foldl (fun m c => m * 10 + (c.toNat - 48)) 0 = n := by
    have hfold : Nat.ofDigitChars 10 (Nat.toDigits 10 n) 0 = n :=
      Nat.ofDigitChars_toDigits (by decide) (by decide)
    simp only [Nat.ofDigitChars, Nat.mul_comm 10] at hfold
    exact hfold
  rw [hdigits, natural?, if_pos ⟨hne, hall⟩, hvalue]

namespace Sql

theorem toList_place (n : Nat) : (place n).toList = '$' :: (toString n).toList := by
  rw [place, String.toList_append]
  rfl

theorem placeOf?_place (n : Nat) : placeOf? (place n) = some n := by
  rw [placeOf?, toList_place]
  exact Text.natural?_toString n

theorem not_blank_mem_place (n : Nat) : ' ' ∉ (place n).toList := by
  rw [toList_place]
  intro h
  rcases List.mem_cons.mp h with h | h
  · exact absurd h (by decide)
  · have hdigits : (toString n).toList = Nat.toDigits 10 n := Nat.toList_repr
    rw [hdigits] at h
    have hdigit := Nat.isDigit_of_mem_toDigits (by decide) (by decide) h
    exact absurd hdigit (by decide)

def spaced : List String → String
  | [] => ""
  | word :: words => " " ++ word ++ spaced words

theorem spaced_append (as bs : List String) : spaced (as ++ bs) = spaced as ++ spaced bs := by
  induction as with
  | nil => rw [List.nil_append, spaced, String.empty_append]
  | cons a as ih => rw [List.cons_append, spaced, spaced, ih, ← String.append_assoc]

theorem splitOn_append_spaced {word : String} {words : List String} (hword : ' ' ∉ word.toList)
    (hwords : ∀ other ∈ words, ' ' ∉ other.toList) :
    (word.toList ++ (spaced words).toList).splitOn ' ' =
      word.toList :: words.map String.toList := by
  induction words generalizing word with
  | nil =>
      rw [spaced, String.toList_empty, List.append_nil]
      exact List.splitOn_eq_singleton hword
  | cons next words ih =>
      have htext : (spaced (next :: words)).toList =
          ' ' :: (next.toList ++ (spaced words).toList) := by
        rw [spaced, String.toList_append, String.toList_append]
        rfl
      have hrest := ih (hwords next List.mem_cons_self) fun other hother =>
        hwords other (List.mem_cons_of_mem next hother)
      rw [htext, List.splitOn_append_cons_self_of_not_mem hword, hrest, List.map_cons]

theorem of?_append_spaced {source : String} {words : List String}
    (h : ∀ word ∈ words, ' ' ∉ word.toList) :
    Selection.of? source (source ++ spaced words) = Selection.ofWords? words := by
  have hsource : source.toList.isPrefixOf? (source ++ spaced words).toList =
      some (spaced words).toList := by
    rw [List.isPrefixOf?_eq_some_iff_append_eq, String.toList_append]
  have hempty : ' ' ∉ "".toList := by simp
  have hsplit := splitOn_append_spaced hempty h
  rw [String.toList_empty, List.nil_append] at hsplit
  rw [Selection.of?, hsource, Option.bind_eq_bind, Option.bind_some, hsplit]
  simp [Function.comp_def]

def comparisonWords : Nat → List (String × Datum) → List String
  | _, [] => []
  | n, [(column, _)] => [column, "=", place n]
  | n, (column, _) :: filters => [column, "=", place n, "AND"] ++ comparisonWords (n + 1) filters

theorem comparisonWords_cons_cons (n : Nat) (f g : String × Datum)
    (filters : List (String × Datum)) :
    comparisonWords n (f :: g :: filters) =
      [f.1, "=", place n, "AND"] ++ comparisonWords (n + 1) (g :: filters) :=
  rfl

def numbered : Nat → List (String × Datum) → List Comparison
  | _, [] => []
  | n, (column, _) :: filters => ⟨column, n⟩ :: numbered (n + 1) filters

theorem spaced_comparisonWords (n : Nat) {filters : List (String × Datum)} (h : filters ≠ []) :
    spaced (comparisonWords n filters) =
      " " ++ String.intercalate " AND " (comparisons n filters) := by
  have hequal : " = " = " " ++ "=" ++ " " := rfl
  have hand : " AND " = " " ++ "AND" ++ " " := rfl
  induction filters generalizing n with
  | nil => exact absurd rfl h
  | cons first filters ih =>
      obtain ⟨column, x⟩ := first
      cases filters with
      | nil =>
          simp only [comparisonWords, comparisons, spaced, String.intercalate_singleton, hequal,
            String.append_empty, String.append_assoc]
      | cons second filters =>
          have hrest := ih (n + 1) (List.cons_ne_nil second filters)
          have htext : comparisons n ((column, x) :: second :: filters) =
              (column ++ " = " ++ place n) :: comparisons (n + 1) (second :: filters) := rfl
          rw [comparisonWords_cons_cons, spaced_append, hrest, htext, comparisons,
            String.intercalate_cons_cons]
          simp only [spaced, hequal, hand, String.append_empty, String.append_assoc]

theorem readComparisons_append (n : Nat) {filters : List (String × Datum)} (h : filters ≠ [])
    (rest : List String) :
    readComparisons (comparisonWords n filters ++ "ORDER" :: rest) =
      some (numbered n filters, "ORDER" :: rest) := by
  -- Whether another comparison follows is seen by the word after the third.
  induction filters generalizing n with
  | nil => exact absurd rfl h
  | cons first filters ih =>
      obtain ⟨column, x⟩ := first
      cases filters with
      | nil => simp [comparisonWords, readComparisons, numbered, placeOf?_place]
      | cons second filters =>
          have hrest := ih (n + 1) (List.cons_ne_nil second filters)
          rw [comparisonWords_cons_cons, List.append_assoc]
          simp [readComparisons, hrest, placeOf?_place, numbered]

def clauseWords (filters : List (String × Datum)) : List String :=
  if filters.isEmpty then [] else "WHERE" :: comparisonWords 1 filters

theorem spaced_clauseWords (filters : List (String × Datum)) :
    spaced (clauseWords filters) = (whereClause filters).sql := by
  cases filters with
  | nil => rfl
  | cons first filters =>
      have hwhere : " WHERE " = " " ++ "WHERE" ++ " " := rfl
      have hwords := spaced_comparisonWords 1 (List.cons_ne_nil first filters)
      simp only [clauseWords, whereClause, List.isEmpty_cons, Bool.false_eq_true, if_false, spaced,
        hwords, hwhere, String.append_assoc]

theorem readClause_clauseWords (filters : List (String × Datum)) (rest : List String) :
    readClause (clauseWords filters ++ "ORDER" :: rest) =
      some (numbered 1 filters, "ORDER" :: rest) := by
  cases filters with
  | nil => rfl
  | cons first filters => exact readComparisons_append 1 (List.cons_ne_nil first filters) rest

theorem not_blank_mem_comparisonWords (n : Nat) {filters : List (String × Datum)}
    (h : ∀ f ∈ filters, ' ' ∉ f.1.toList) :
    ∀ word ∈ comparisonWords n filters, ' ' ∉ word.toList := by
  induction filters generalizing n with
  | nil => simp [comparisonWords]
  | cons first filters ih =>
      obtain ⟨column, x⟩ := first
      have hcolumn : ' ' ∉ column.toList := h (column, x) List.mem_cons_self
      have hrest := ih (n + 1) fun f hf => h f (List.mem_cons_of_mem _ hf)
      cases filters with
      | nil => simp [comparisonWords, hcolumn, not_blank_mem_place]
      | cons second filters =>
          intro word hword
          rw [comparisonWords_cons_cons] at hword
          rcases List.mem_append.mp hword with hword | hword
          · simp only [List.mem_cons, List.not_mem_nil, or_false] at hword
            rcases hword with rfl | rfl | rfl | rfl
            · exact hcolumn
            · decide
            · exact not_blank_mem_place n
            · decide
          · exact hrest word hword

theorem not_blank_mem_clauseWords {filters : List (String × Datum)}
    (h : ∀ f ∈ filters, ' ' ∉ f.1.toList) : ∀ word ∈ clauseWords filters, ' ' ∉ word.toList := by
  intro word hword
  rw [clauseWords] at hword
  split at hword
  · cases hword
  · rcases List.mem_cons.mp hword with rfl | hword
    · decide
    · exact not_blank_mem_comparisonWords 1 h word hword

/-- The words that end a query ordered by a column, if its limit stands at the place `n`. -/
def pageWords (column : String) (n : Nat) : List String :=
  ["ORDER", "BY", column, "LIMIT", place n, "OFFSET", place (n + 1)]

theorem sql_build {q : FilterQuery} {column : String} (h : q.orderBy = "ORDER BY " ++ column) :
    q.build.sql =
      q.base ++ spaced (clauseWords q.filters ++ pageWords column (q.filters.length + 1)) := by
  have hlength : (whereClause q.filters).params.length = q.filters.length := List.length_map _
  have horder : "ORDER BY " = "ORDER" ++ " " ++ "BY" ++ " " := rfl
  have hlimit : " LIMIT " = " " ++ "LIMIT" ++ " " := rfl
  have hoffset : " OFFSET " = " " ++ "OFFSET" ++ " " := rfl
  rw [spaced_append, spaced_clauseWords]
  simp only [FilterQuery.build, pageWords, spaced, hlength, h, horder, hlimit, hoffset,
    String.append_assoc, String.append_empty]

theorem of?_build {q : FilterQuery} {column : String} (horder : q.orderBy = "ORDER BY " ++ column)
    (hcolumn : ' ' ∉ column.toList) (hfilters : ∀ f ∈ q.filters, ' ' ∉ f.1.toList) :
    Selection.of? q.base q.build.sql =
      some ⟨numbered 1 q.filters, column, q.filters.length + 1, q.filters.length + 2⟩ := by
  have hwords : ∀ word ∈ clauseWords q.filters ++ pageWords column (q.filters.length + 1),
      ' ' ∉ word.toList := by
    intro word hword
    rcases List.mem_append.mp hword with hword | hword
    · exact not_blank_mem_clauseWords hfilters word hword
    · simp only [pageWords, List.mem_cons, List.not_mem_nil, or_false] at hword
      rcases hword with rfl | rfl | rfl | rfl | rfl | rfl | rfl
      · decide
      · decide
      · exact hcolumn
      · decide
      · exact not_blank_mem_place _
      · decide
      · exact not_blank_mem_place _
  rw [sql_build horder, of?_append_spaced hwords, Selection.ofWords?, pageWords,
    readClause_clauseWords]
  simp [placeOf?_place]

example : Selection.of? "SELECT * FROM t"
    "SELECT * FROM t WHERE a = $1 AND b = $2 ORDER BY id LIMIT $3 OFFSET $4" =
      some ⟨[⟨"a", 1⟩, ⟨"b", 2⟩], "id", 3, 4⟩ := by
  decide +kernel

theorem bound?_append (before after : List Datum) (x : Datum) :
    bound? (before ++ x :: after) (before.length + 1) = some x := by
  rw [bound?, List.getElem?_append_right (Nat.le_refl _), Nat.sub_self, List.getElem?_cons_zero]

namespace Table

variable {t : Table}

theorem test?_eq {params : List Datum} {c : Comparison} {x : Datum}
    (hbound : bound? params c.place = some x) (hknown : t.columns.lookup c.column = some x.type) :
    t.test? params c = some (c.column, x) := by
  simp [test?, hbound, hknown]

theorem mapM_test?_numbered {filters : List (String × Datum)}
    (h : ∀ f ∈ filters, t.columns.lookup f.1 = some f.2.type) (before after : List Datum) :
    (numbered (before.length + 1) filters).mapM
      (t.test? (before ++ filters.map (·.2) ++ after)) = some filters := by
  induction filters generalizing before with
  | nil => rfl
  | cons first filters ih =>
      obtain ⟨column, x⟩ := first
      have hrest := ih (fun f hf => h f (List.mem_cons_of_mem _ hf)) (before ++ [x])
      rw [List.append_assoc before, List.singleton_append, List.length_append] at hrest
      have hfirst : t.test? (before ++ ((column, x) :: filters).map (·.2) ++ after)
          ⟨column, before.length + 1⟩ = some (column, x) := by
        refine test?_eq ?_ (h (column, x) List.mem_cons_self)
        rw [List.append_assoc]
        exact bound?_append before _ x
      rw [numbered, List.mapM_cons, hfirst]
      exact congrArg (fun tests => tests.bind fun tests => some ((column, x) :: tests)) hrest

/-- The rows that a filtered query reads. -/
theorem rows?_build {q : FilterQuery} {column : String} {limit offset : Nat}
    (horder : q.orderBy = "ORDER BY " ++ column) (hcolumn : ' ' ∉ column.toList)
    (hfilters : ∀ f ∈ q.filters, ' ' ∉ f.1.toList)
    (hknown : ∀ f ∈ q.filters, t.columns.lookup f.1 = some f.2.type)
    (hkey : t.columns.lookup column = some .uuid)
    (hlimit : (Datum.int q.limit).natural? = some limit)
    (hoffset : (Datum.int q.offset).natural? = some offset) :
    t.rows? q.base q.build =
      some ((((t.rows.filter fun row =>
        q.filters.all fun f => t.value? f.1 row = some f.2).mergeSort
          (t.mayPrecede column)).drop offset).take limit) := by
  have hlength : (q.filters.map (·.2)).length = q.filters.length := List.length_map _
  have hparams : q.build.params = q.filters.map (·.2) ++ [.int q.limit, .int q.offset] := rfl
  have htests := mapM_test?_numbered hknown [] [.int q.limit, .int q.offset]
  have hat := bound?_append (q.filters.map (·.2)) [.int q.offset] (.int q.limit)
  have hlast := bound?_append (q.filters.map (·.2) ++ [.int q.limit]) [] (.int q.offset)
  rw [hlength] at hat
  rw [List.append_assoc, List.length_append, hlength] at hlast
  rw [rows?, of?_build horder hcolumn hfilters, Option.bind_eq_bind, Option.bind_some, hparams]
  simp only [List.nil_append, List.length_nil, List.length_singleton, List.singleton_append,
    Nat.zero_add] at htests hlast
  simp [select?, htests, hkey, hat, hlast, hlimit, hoffset]

end Table

end Sql

end UserDirectory
