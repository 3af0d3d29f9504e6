import UserDirectory.Proofs.Json.Lexing

namespace UserDirectory.Json.Grammar

open Token

variable {b b' l w w' rest cs : List Char} {c : Char} {ps : List Piece} {p : Piece}

/-- The bracket that a word of a kind is inside of; a single value may be inside of anything. -/
def Form.brackets : Form → List Bracket
  | .value | .element => []
  | .elements => [.list]
  | .member | .members => [.object]

/-- What is awaited where a word of a kind begins. -/
def Form.Begins : Form → Awaited → Prop
  | .value, g | .element, g | .elements, g => g = .value ∨ g = .firstItem
  | .member, g | .members, g => g = .key ∨ g = .firstKey

/-- Whether a word is cut into certain tokens, and these are skipped where such a word can begin. -/
structure CutInto (form : Form) (w : List Char) (ts : List Token) : Prop where
  lex : ∀ rest, Ends rest → ofChars (w ++ rest) = ts ++ ofChars rest
  skip : ∀ g, form.Begins g → ∀ stack rest,
    skipFrom (form.brackets ++ stack) g (ts ++ rest) =
      skipFrom (form.brackets ++ stack) .separator rest

theorem ends_cons (hc : c ∈ [' ', '\t', '\n', '\r', ',', ']', '\x7d']) (rest : List Char) :
    Ends (c :: rest) := by
  intro c' hc'
  cases hc'
  exact hc

theorem ends_blanks (h : Blanks b) (hrest : Ends rest) : Ends (b ++ rest) := by
  cases b with
  | nil => exact hrest
  | cons c b =>
      have hc := h c (List.mem_cons_self ..)
      refine ends_cons ?_ _
      simp only [List.mem_cons, List.not_mem_nil, or_false] at hc ⊢
      rcases hc with rfl | rfl | rfl | rfl <;> simp

theorem skipFrom_step {stack stack' : List Bracket} {g g' : Awaited} {t : Token}
    (hgo : g ≠ .separator) (h : skipToken stack g t = .ok (stack', g')) (ts : List Token) :
    skipFrom stack g (t :: ts) = skipFrom stack' g' ts := by
  rw [skipFrom.eq_3 _ _ _ _ (fun _ hg => hgo hg), h]

theorem skipFrom_leaf {stack stack' : List Bracket} {g g' : Awaited} {t : Token}
    (hg : g = .value ∨ g = .firstItem) (h : skipToken.skipLeaf stack t = .ok (stack', g'))
    (ts : List Token) : skipFrom stack g (t :: ts) = skipFrom stack' g' ts := by
  refine skipFrom_step (by rcases hg with rfl | rfl <;> simp) ?_ ts
  rcases hg with rfl | rfl
  · rcases stack with _ | ⟨_ | _, stack⟩ <;> exact h
  · rcases stack with _ | ⟨_ | _, stack⟩ <;> cases t <;> first | exact h | cases h

theorem cutInto_leaf {t : Token}
    (hlex : ∀ rest, Ends rest → ofChars (w ++ rest) = t :: ofChars rest)
    (hskip : ∀ stack, skipToken.skipLeaf stack t = .ok (stack, .separator)) :
    CutInto .value w [t] where
  lex := hlex
  skip _ hg _ rest := skipFrom_leaf hg (hskip _) rest

theorem ofChars_word {t : Token} (hc : isBlank c = false)
    (hscan : ∀ s, scan c (cs.map some ++ s) = (t, s)) (rest : List Char) :
    ofChars (c :: cs ++ rest) = t :: ofChars rest := by
  rw [ofChars, List.cons_append, List.map_cons, scanAll_cons hc, List.map_append, hscan, ofChars]

theorem ofChars_null (rest : List Char) : ofChars ("null".toList ++ rest) = .null :: ofChars rest :=
  ofChars_word rfl (fun _ => rfl) rest

theorem ofChars_true (rest : List Char) :
    ofChars ("true".toList ++ rest) = .bool true :: ofChars rest :=
  ofChars_word rfl (fun _ => rfl) rest

theorem ofChars_false (rest : List Char) :
    ofChars ("false".toList ++ rest) = .bool false :: ofChars rest :=
  ofChars_word rfl (fun _ => rfl) rest

theorem ends_nil : Ends [] := nofun

theorem ofChars_alone {t : Token}
    (h : ∀ rest, Ends rest → ofChars (w ++ rest) = t :: ofChars rest) : ofChars w = [t] := by
  have hlex := h [] ends_nil
  rw [List.append_nil, ofChars_nil] at hlex
  exact hlex

namespace CutInto

variable {ts ts' : List Token}

theorem emptyList (h : Blanks b) :
    CutInto .value ('[' :: (b ++ [']'])) [.openList, .closeList] where
  lex rest _ := by
    rw [List.cons_append, List.append_assoc, ofChars_openList, ofChars_blanks h,
      List.singleton_append, ofChars_closeList]
    rfl
  skip g hg stack rest := by
    rw [List.cons_append, skipFrom_leaf hg rfl]
    rfl

theorem list (h : CutInto .elements w ts) :
    CutInto .value ('[' :: (w ++ [']'])) (.openList :: (ts ++ [.closeList])) where
  lex rest hrest := by
    rw [List.cons_append, List.append_assoc, ofChars_openList, List.singleton_append,
      h.lex _ (ends_cons (by simp) _), ofChars_closeList]
    simp
  skip g hg stack rest := by
    rw [List.cons_append, skipFrom_leaf hg rfl, List.append_assoc]
    exact h.skip .firstItem (Or.inr rfl) stack _

theorem emptyObject (h : Blanks b) :
    CutInto .value ('\x7b' :: (b ++ ['\x7d'])) [.openObject, .closeObject] where
  lex rest _ := by
    rw [List.cons_append, List.append_assoc, ofChars_openObject, ofChars_blanks h,
      List.singleton_append, ofChars_closeObject]
    rfl
  skip g hg stack rest := by
    rw [List.cons_append, skipFrom_leaf hg rfl]
    rfl

theorem object (h : CutInto .members w ts) :
    CutInto .value ('\x7b' :: (w ++ ['\x7d'])) (.openObject :: (ts ++ [.closeObject])) where
  lex rest hrest := by
    rw [List.cons_append, List.append_assoc, ofChars_openObject, List.singleton_append,
      h.lex _ (ends_cons (by simp) _), ofChars_closeObject]
    simp
  skip g hg stack rest := by
    rw [List.cons_append, skipFrom_leaf hg rfl, List.append_assoc]
    exact h.skip .firstKey (Or.inr rfl) stack _

theorem element (hb : Blanks b) (h : CutInto .value w ts) (hb' : Blanks b') :
    CutInto .element (b ++ (w ++ b')) ts where
  lex rest hrest := by
    rw [List.append_assoc, ofChars_blanks hb, List.append_assoc, h.lex _ (ends_blanks hb' hrest),
      ofChars_blanks hb']
  skip := h.skip

theorem elements_one (h : CutInto .element w ts) : CutInto .elements w ts where
  lex := h.lex
  skip g hg stack := h.skip g hg (.list :: stack)

theorem elements_cons (h : CutInto .element w ts) (hs : CutInto .elements w' ts') :
    CutInto .elements (w ++ ',' :: w') (ts ++ .comma :: ts') where
  lex rest hrest := by
    rw [List.append_assoc, List.cons_append, h.lex _ (ends_cons (by simp) _), ofChars_comma,
      hs.lex _ hrest, List.append_assoc, List.cons_append]
  skip g hg stack rest := by
    rw [List.append_assoc]
    refine (h.skip g hg (.list :: stack) _).trans ?_
    exact hs.skip .value (Or.inl rfl) stack rest

theorem member (hb : Blanks b) (hl : Literal ps l) (hb' : Blanks b')
    (h : CutInto .element w ts) :
    CutInto .member (b ++ (l ++ (b' ++ ':' :: w))) (.text ps .quote :: .colon :: ts) where
  lex rest hrest := by
    simp only [List.append_assoc, List.cons_append]
    rw [ofChars_blanks hb, ofChars_literal hl, ofChars_blanks hb', ofChars_colon, h.lex _ hrest]
  skip g hg stack rest := by
    have hkey : skipFrom (.object :: stack) g (.text ps .quote :: .colon :: (ts ++ rest)) =
        skipFrom (.object :: stack) .value (ts ++ rest) := by
      rcases hg with rfl | rfl <;> rfl
    exact hkey.trans (h.skip .value (Or.inl rfl) (.object :: stack) rest)

theorem members_one (h : CutInto .member w ts) : CutInto .members w ts where
  lex := h.lex
  skip := h.skip

theorem members_cons (h : CutInto .member w ts) (hs : CutInto .members w' ts') :
    CutInto .members (w ++ ',' :: w') (ts ++ .comma :: ts') where
  lex rest hrest := by
    rw [List.append_assoc, List.cons_append, h.lex _ (ends_cons (by simp) _), ofChars_comma,
      hs.lex _ hrest, List.append_assoc, List.cons_append]
  skip g hg stack rest := by
    rw [List.append_assoc]
    refine (h.skip g hg stack _).trans ?_
    exact hs.skip .key (Or.inl rfl) stack rest

end CutInto

theorem exists_cutInto {form : Form} (h : Word form w) : ∃ ts, CutInto form w ts := by
  induction h with
  | null => exact ⟨_, cutInto_leaf (fun rest _ => ofChars_null rest) fun _ => rfl⟩
  | true => exact ⟨_, cutInto_leaf (fun rest _ => ofChars_true rest) fun _ => rfl⟩
  | false => exact ⟨_, cutInto_leaf (fun rest _ => ofChars_false rest) fun _ => rfl⟩
  | number h =>
      obtain ⟨n, hn⟩ := ofChars_number h
      exact ⟨_, cutInto_leaf hn fun _ => rfl⟩
  | text h => exact ⟨_, cutInto_leaf (fun rest _ => ofChars_literal h rest) fun _ => rfl⟩
  | emptyList h => exact ⟨_, .emptyList h⟩
  | list _ ih =>
      obtain ⟨ts, hts⟩ := ih
      exact ⟨_, hts.list⟩
  | emptyObject h => exact ⟨_, .emptyObject h⟩
  | object _ ih =>
      obtain ⟨ts, hts⟩ := ih
      exact ⟨_, hts.object⟩
  | element hb _ hb' ih => exact ih.imp fun _ h => .element hb h hb'
  | elements_one _ ih => exact ih.imp fun _ => .elements_one
  | elements_cons _ _ ih ih' =>
      obtain ⟨ts, hts⟩ := ih
      obtain ⟨ts', hts'⟩ := ih'
      exact ⟨_, hts.elements_cons hts'⟩
  | member hb hl hb' _ ih =>
      obtain ⟨ts, hts⟩ := ih
      exact ⟨_, .member hb hl hb' hts⟩
  | members_one _ ih => exact ih.imp fun _ => .members_one
  | members_cons _ _ ih ih' =>
      obtain ⟨ts, hts⟩ := ih
      obtain ⟨ts', hts'⟩ := ih'
      exact ⟨_, hts.members_cons hts'⟩

/-! Values. -/

variable {j : Value} {t : Token} {ts : List Token}

theorem CutInto.eq_ofChars {form : Form} (h : CutInto form w ts) : ts = ofChars w := by
  have hlex := h.lex [] ends_nil
  rw [List.append_nil, ofChars_nil, List.append_nil] at hlex
  exact hlex.symm

theorem cutInto_ofChars {form : Form} (h : Word form w) : CutInto form w (ofChars w) := by
  obtain ⟨ts, hts⟩ := exists_cutInto h
  rw [← hts.eq_ofChars]
  exact hts

theorem skip_value (h : Word .value w) (rest : List Token) :
    Json.skip (ofChars w ++ rest) = .ok rest := by
  have hskip := (cutInto_ofChars h).skip .value (Or.inl rfl) [] rest
  rw [Json.skip]
  exact hskip.trans (by rw [Form.brackets, List.nil_append, skipFrom])

theorem ofChars_value_ne_nil (h : Word .value w) : ofChars w ≠ [] := by
  intro hnil
  have hskip := skip_value h []
  rw [hnil] at hskip
  cases hskip

theorem value_cases (h : Word .value w) :
    (∃ ps, Literal ps w ∧ ofChars w = [.text ps .quote]) ∨
      (∃ b, Denotes w (.bool b) ∧ ofChars w = [.bool b]) ∨
        ∃ t ts, ofChars w = t :: ts ∧ ∀ j, t.IsLiteral j → j = .null ∨ ∃ n, j = .number n := by
  have hbracket {t : Token} (ht : t = .openList ∨ t = .openObject) (j : Value)
      (hj : t.IsLiteral j) : j = .null ∨ ∃ n, j = .number n := by
    have hgrow := hj.grow 0 []
    rcases ht with rfl | rfl <;> cases hgrow
  cases h with
  | null =>
      refine Or.inr (Or.inr ⟨_, _, ofChars_alone fun rest _ => ofChars_null rest, fun j hj => ?_⟩)
      cases hj.grow 0 []
      exact Or.inl rfl
  | true => exact Or.inr (Or.inl ⟨_, .true, ofChars_alone fun rest _ => ofChars_true rest⟩)
  | false => exact Or.inr (Or.inl ⟨_, .false, ofChars_alone fun rest _ => ofChars_false rest⟩)
  | number h =>
      obtain ⟨n, hn⟩ := ofChars_number h
      refine Or.inr (Or.inr ⟨_, _, ofChars_alone hn, fun j hj => ?_⟩)
      have hgrow := hj.grow 0 []
      simp only [growToken.growLeaf] at hgrow
      split at hgrow <;> cases hgrow
      exact Or.inr ⟨_, rfl⟩
  | text h => exact Or.inl ⟨_, h, ofChars_alone fun rest _ => ofChars_literal h rest⟩
  | emptyList => exact Or.inr (Or.inr ⟨_, _, ofChars_openList _, hbracket (Or.inl rfl)⟩)
  | list => exact Or.inr (Or.inr ⟨_, _, ofChars_openList _, hbracket (Or.inl rfl)⟩)
  | emptyObject => exact Or.inr (Or.inr ⟨_, _, ofChars_openObject _, hbracket (Or.inr rfl)⟩)
  | object => exact Or.inr (Or.inr ⟨_, _, ofChars_openObject _, hbracket (Or.inr rfl)⟩)

theorem textOf_eq_ok (h : Literal ps l) {s : String} :
    textOf ps .quote = .ok s ↔ Spells ps s.toList := by
  obtain ⟨hparts⟩ := h
  constructor
  · intro hs
    obtain ⟨cs, hcs, rfl⟩ := ok_of_map hs
    rw [String.toList_ofList]
    exact spells_of_unitChars hparts.unit_lt hcs
  · intro hs
    rw [textOf, unitChars_of_spells hs, Except.map, String.ofList_toList]

theorem denotes_of_isLiteral (h : Word .value w) (hts : ofChars w = t :: ts) (ht : t.IsLiteral j)
    (hnull : j ≠ .null) (hnumber : ∀ n, j ≠ .number n) : Denotes w j := by
  have hgrow := ht.grow 0 []
  rcases value_cases h with ⟨ps, hl, hw⟩ | ⟨b, hb, hw⟩ | ⟨t', ts', hw, hnone⟩
  · cases hts.symm.trans hw
    obtain ⟨s, hs, he⟩ := ok_of_map hgrow
    cases he
    exact .text hl ((textOf_eq_ok hl).mp hs)
  · cases hts.symm.trans hw
    cases hgrow
    exact hb
  · cases hts.symm.trans hw
    rcases hnone j ht with rfl | ⟨n, rfl⟩
    · exact absurd rfl hnull
    · exact absurd rfl (hnumber n)

theorem isLiteral_of_denotes (h : Denotes w j) : ∃ t, ofChars w = [t] ∧ t.IsLiteral j := by
  cases h with
  | text hl hs =>
      have ht := isLiteral_text ((textOf_eq_ok hl).mpr hs)
      exact ⟨_, ofChars_alone fun rest _ => ofChars_literal hl rest, ht⟩
  | true => exact ⟨_, ofChars_alone fun rest _ => ofChars_true rest, isLiteral_bool _⟩
  | false => exact ⟨_, ofChars_alone fun rest _ => ofChars_false rest, isLiteral_bool _⟩

theorem denotes_unique {j' : Value} (h : Denotes w j) (h' : Denotes w j') : j = j' := by
  obtain ⟨t, ht, hj⟩ := isLiteral_of_denotes h
  obtain ⟨t', ht', hj'⟩ := isLiteral_of_denotes h'
  cases ht.symm.trans ht'
  have hgrow := (hj.grow 0 []).symm.trans (hj'.grow 0 [])
  simpa using hgrow

theorem Member.cutInto {key : String} (h : Member key w cs) :
    Word .value w ∧ ∃ ps, textOf ps .quote = .ok key ∧
      CutInto .member cs (.text ps .quote :: .colon :: ofChars w) := by
  obtain ⟨hb₁, hl, hk, hb₂, hb₃, hw, hb₄⟩ := h
  have hcut := CutInto.element hb₃ (cutInto_ofChars hw) hb₄
  exact ⟨hw, _, (textOf_eq_ok hl).mpr hk, .member hb₁ hl hb₂ hcut⟩

theorem ofChars_blanks_alone (h : Blanks b) : ofChars b = [] := by
  have hblanks := ofChars_blanks h []
  rw [List.append_nil, ofChars_nil] at hblanks
  exact hblanks

end UserDirectory.Json.Grammar
