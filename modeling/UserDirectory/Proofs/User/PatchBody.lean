import Mathlib.Data.List.Nodup
import UserDirectory.Proofs.Json.Words
import UserDirectory.Proofs.User.Flattened
import UserDirectory.Proofs.User.Patch

namespace UserDirectory

open UserDirectory.Json UserDirectory.Json.Grammar UserDirectory.Text

variable {c c' : Column} {v : FieldValue} {w : List Char} {j : Value} {p p' : UserPatch}
  {ms : List (String × List Char)}

theorem Column.name_injective : Function.Injective Column.name := by
  intro c c' h
  cases c <;> cases c' <;> first | rfl | exact absurd h (by decide)

def Column.ofJson? : Column → Value → Option FieldValue
  | .id, .text s | .versionId, .text s => (Uuid.ofString? s).map .uuid
  | .firstName, .text s | .lastName, .text s | .email, .text s | .phone, .text s
  | .passwordHash, .text s => some (.text s)
  | .isAdmin, .bool b => some (.bool b)
  | _, _ => none

@[simp] theorem Column.ofJson?_null (c : Column) : c.ofJson? .null = none := by
  cases c <;> rfl

@[simp] theorem Column.ofJson?_number (c : Column) (n : Number) : c.ofJson? (.number n) = none := by
  cases c <;> rfl

/-- Whether a word is a value of the type of a column: an accepted text of an identifier, any text,
or a truth value. -/
def Takes (c : Column) (w : List Char) (v : FieldValue) : Prop :=
  ∃ j, Denotes w j ∧ c.ofJson? j = some v

theorem Takes.unique {v' : FieldValue} (h : Takes c w v) (h' : Takes c w v') : v = v' := by
  obtain ⟨j, hj, hv⟩ := h
  obtain ⟨j', hj', hv'⟩ := h'
  cases denotes_unique hj hj'
  exact Option.some.inj (hv.symm.trans hv')

theorem not_takes_null : ¬ Takes c "null".toList v := by
  rintro ⟨j, hj, hv⟩
  obtain ⟨t, ht, hliteral⟩ := isLiteral_of_denotes hj
  cases ht.symm.trans (ofChars_alone fun rest _ => ofChars_null rest)
  cases hliteral.grow 0 []
  rw [Column.ofJson?_null] at hv
  cases hv

namespace UserPatch

def put (p : UserPatch) : Column → FieldValue → UserPatch
  | .id, .uuid u => { p with id := .present u }
  | .versionId, .uuid u => { p with versionId := .present u }
  | .firstName, .text s => { p with firstName := .present s }
  | .lastName, .text s => { p with lastName := .present s }
  | .email, .text s => { p with email := .present s }
  | .phone, .text s => { p with phone := .present s }
  | .isAdmin, .bool b => { p with isAdmin := .present b }
  | .passwordHash, .text s => { p with passwordHash := .present s }
  | _, _ => p

theorem value?_empty (c : Column) : ({} : UserPatch).value? c = none := by
  cases c <;> rfl

theorem value?_put (h : Takes c w v) (p : UserPatch) (c' : Column) :
    (p.put c v).value? c' = if c' = c then some v else p.value? c' := by
  obtain ⟨j, -, hv⟩ := h
  cases c <;> cases j <;>
    simp only [Column.ofJson?, Option.map_eq_some_iff, reduceCtorEq, Option.some.injEq] at hv <;>
    first
    | (subst hv; cases c' <;> rfl)
    | (obtain ⟨u, -, rfl⟩ := hv; cases c' <;> rfl)

/-- Whether a field of the record is the one for a column. -/
structure IsField (c : Column) (f : RecordField UserPatch) : Prop where
  isFilled : ∀ p, f.isFilled p = (p.value? c).isSome
  take : ∀ {j set}, f.value.take j = .ok set ↔
    ∃ v, c.ofJson? j = some v ∧ set = fun p => p.put c v

theorem isField_of {α : Type} {key : String} {d : Decoder α} {absence : Absence}
    {get : UserPatch → Option α} {set : UserPatch → α → UserPatch} (ofValue : α → FieldValue)
    (hget : ∀ p, p.value? c = (get p).map ofValue)
    (hset : ∀ a, (fun p => set p a) = fun p => p.put c (ofValue a))
    (htake : ∀ j, c.ofJson? j = (d.take j).toOption.map ofValue) :
    IsField c (.of key d absence get set) where
  isFilled p := by
    rw [hget, Option.isSome_map]
    rfl
  take {j set'} := by
    rw [htake]
    simp only [RecordField.of, Decoder.map, Decoder.refine]
    cases d.take j with
    | error m => simp [Except.bind, Except.toOption]
    | ok a => simp [Except.bind, Except.toOption, hset, eq_comm]

theorem exists_field (c : Column) : ∃ f, record.field? c.name = some f ∧ IsField c f := by
  have huuid (s : String) : (Uuid.ofString? s).map FieldValue.uuid =
      (Decoder.uuid.take (.text s)).toOption.map .uuid := by
    simp only [Decoder.uuid, Decoder.refine, Except.bind, Decoder.uuidOf]
    cases Uuid.ofString? s <;> rfl
  cases c with
  | id =>
      refine ⟨_, rfl, isField_of .uuid (fun _ => rfl) (fun _ => rfl) fun j => ?_⟩
      cases j <;> first | exact huuid _ | rfl
  | versionId =>
      refine ⟨_, rfl, isField_of .uuid (fun _ => rfl) (fun _ => rfl) fun j => ?_⟩
      cases j <;> first | exact huuid _ | rfl
  | isAdmin =>
      refine ⟨_, rfl, isField_of .bool (fun _ => rfl) (fun _ => rfl) fun j => ?_⟩
      cases j <;> rfl
  | _ =>
      refine ⟨_, rfl, isField_of .text (fun _ => rfl) (fun _ => rfl) fun j => ?_⟩
      cases j <;> rfl

theorem field?_eq_none {key : String} (h : ∀ c : Column, c.name ≠ key) :
    record.field? key = none := by
  cases hf : record.field? key with
  | none => rfl
  | some f =>
      have hkey := Record.key_of_field? hf
      have hmem := Record.mem_of_field? hf
      simp only [record, List.mem_cons, List.not_mem_nil, or_false] at hmem
      rcases hmem with rfl | rfl | rfl | rfl | rfl | rfl | rfl | rfl
      · exact absurd hkey (h .id)
      · exact absurd hkey (h .versionId)
      · exact absurd hkey (h .firstName)
      · exact absurd hkey (h .lastName)
      · exact absurd hkey (h .email)
      · exact absurd hkey (h .phone)
      · exact absurd hkey (h .isAdmin)
      · exact absurd hkey (h .passwordHash)

/-- What a member makes of a patch. It sets the column that its key names, unless that is set
already; under another key it makes nothing of it. -/
inductive Sets (p : UserPatch) (key : String) (w : List Char) : UserPatch → Prop
  | known {c : Column} {v : FieldValue} (hkey : c.name = key) (hfree : p.value? c = none)
      (hv : Takes c w v) : Sets p key w (p.put c v)
  | unknown (hkey : ∀ c : Column, c.name ≠ key) : Sets p key w p

/-- The members of an object lead a patch to another. -/
inductive Collects : UserPatch → List (String × List Char) → UserPatch → Prop
  | nil (p : UserPatch) : Collects p [] p
  | cons {p p₁ p' : UserPatch} {key : String} {w : List Char} {ms : List (String × List Char)}
      (hm : Sets p key w p₁) (h : Collects p₁ ms p') : Collects p ((key, w) :: ms) p'

theorem Sets.column (h : Sets p c.name w p') :
    p.value? c = none ∧ ∃ v, Takes c w v ∧ p' = p.put c v := by
  cases h with
  | known hkey hfree hv =>
      cases Column.name_injective hkey
      exact ⟨hfree, _, hv, rfl⟩
  | unknown hkey => exact absurd rfl (hkey c)

theorem Sets.value?_of_ne {key : String} (h : Sets p key w p') (hne : key ≠ c.name) :
    p'.value? c = p.value? c := by
  cases h with
  | @known c' v hkey hfree hv =>
      have hc : c ≠ c' := by
        rintro rfl
        exact hne hkey.symm
      rw [value?_put hv, if_neg hc]
  | unknown => rfl

/-! What members are read as. -/

section Reading

variable {key : String} {rest rest' : List Token}

theorem readMember_known (hw : Word .value w) :
    record.readMember c.name p (.colon :: (Token.ofChars w ++ rest)) = .ok (p', rest') ↔
      rest' = rest ∧ p.value? c = none ∧ ∃ v, Takes c w v ∧ p' = p.put c v := by
  obtain ⟨f, hf, hfield⟩ := exists_field c
  have hliterals := ofLiterals_fields (Record.mem_of_field? hf)
  simp only [Record.readMember, hf, hfield.isFilled]
  constructor
  · intro h
    split at h
    · cases h
    · rename_i hfree
      obtain ⟨⟨set, rest''⟩, hread, he⟩ := ok_of_map h
      cases he
      obtain ⟨t, j, hts, ht, htake⟩ := hliterals.token hread
      obtain ⟨v, hv, rfl⟩ := hfield.take.mp htake
      obtain ⟨t', ts, hw'⟩ := List.exists_cons_of_ne_nil (ofChars_value_ne_nil hw)
      rw [hw', List.cons_append] at hts
      cases hts
      have hj := denotes_of_isLiteral hw hw' ht (by rintro rfl; simp at hv)
        (by rintro n rfl; simp at hv)
      obtain ⟨t'', hw'', -⟩ := isLiteral_of_denotes hj
      cases hw'.symm.trans hw''
      exact ⟨rfl, by simpa using hfree, v, ⟨j, hj, hv⟩, rfl⟩
  · rintro ⟨rfl, hfree, v, ⟨j, hj, hv⟩, rfl⟩
    obtain ⟨t, hw', ht⟩ := isLiteral_of_denotes hj
    have hread := hliterals.read ht (hfield.take.mpr ⟨v, hv, rfl⟩) rest'
    rw [hw', List.singleton_append, hread, hfree]
    rfl

theorem readMember_iff (hw : Word .value w) :
    record.readMember key p (.colon :: (Token.ofChars w ++ rest)) = .ok (p', rest') ↔
      Sets p key w p' ∧ rest' = rest := by
  by_cases hkey : ∃ c : Column, c.name = key
  · obtain ⟨c, rfl⟩ := hkey
    rw [readMember_known hw]
    constructor
    · rintro ⟨rfl, hfree, v, hv, rfl⟩
      exact ⟨.known rfl hfree hv, rfl⟩
    · rintro ⟨hsets, rfl⟩
      exact ⟨rfl, hsets.column⟩
  · have hother : ∀ c : Column, c.name ≠ key := fun c hc => hkey ⟨c, hc⟩
    have hread : record.readMember key p (.colon :: (Token.ofChars w ++ rest)) = .ok (p, rest) := by
      simp only [Record.readMember, field?_eq_none hother, skip_value hw, Except.map]
    rw [hread]
    constructor
    · intro h
      cases h
      exact ⟨.unknown hother, rfl⟩
    · rintro ⟨hsets, rfl⟩
      cases hsets with
      | known hkey' => exact absurd hkey' (hother _)
      | unknown => rfl

theorem readMembers_succ {ps : List Piece} {e : Closing} (hkey : textOf ps e = .ok key)
    (hw : Word .value w) {fuel : Nat} :
    record.readMembers (fuel + 1) p (.text ps e :: .colon :: (Token.ofChars w ++ rest)) =
        .ok (p', rest') ↔
      ∃ p₁, Sets p key w p₁ ∧ ((rest = .closeObject :: rest' ∧ p' = p₁) ∨
        ∃ ts, rest = .comma :: ts ∧ record.readMembers fuel p₁ ts = .ok (p', rest')) := by
  simp only [Record.readMembers, hkey]
  constructor
  · intro h
    split at h
    · cases h
    · rename_i hmember
      cases h
      obtain ⟨hsets, rfl⟩ := (readMember_iff hw).mp hmember
      exact ⟨_, hsets, Or.inl ⟨rfl, rfl⟩⟩
    · rename_i hmember
      obtain ⟨hsets, rfl⟩ := (readMember_iff hw).mp hmember
      exact ⟨_, hsets, Or.inr ⟨_, rfl, h⟩⟩
    · cases h
  · rintro ⟨p₁, hsets, ⟨rfl, rfl⟩ | ⟨ts, rfl, h⟩⟩
    · rw [(readMember_iff hw).mpr ⟨hsets, rfl⟩]
    · rw [(readMember_iff hw).mpr ⟨hsets, rfl⟩]
      exact h

end Reading

/-- Whether the tokens of members are read as what the members make of a patch. -/
structure ReadsMembers (ms : List (String × List Char)) (cs : List Char) (ts : List Token) :
    Prop where
  lex : ∀ rest, Ends rest → Token.ofChars (cs ++ rest) = ts ++ Token.ofChars rest
  opens : ∀ rest ts', ts ++ rest ≠ .closeObject :: ts'
  read : ∀ fuel, ts.length ≤ fuel → ∀ p p' rest rest',
    record.readMembers fuel p (ts ++ .closeObject :: rest) = .ok (p', rest') ↔
      Collects p ms p' ∧ rest' = rest

theorem exists_readsMembers {cs : List Char} (h : Members ms cs) :
    ∃ ts, ReadsMembers ms cs ts := by
  induction h with
  | one h =>
      obtain ⟨hw, ps, hkey, hcut⟩ := h.cutInto
      refine ⟨_, hcut.lex, nofun, ?_⟩
      intro fuel hfuel p p' rest rest'
      cases fuel with
      | zero => cases hfuel
      | succ fuel =>
          refine (readMembers_succ hkey hw).trans ?_
          constructor
          · rintro ⟨p₁, hsets, ⟨he, rfl⟩ | ⟨ts, he, -⟩⟩
            · cases he
              exact ⟨.cons hsets (.nil _), rfl⟩
            · cases he
          · rintro ⟨hcollects, rfl⟩
            obtain - | ⟨hsets, ⟨⟩⟩ := hcollects
            exact ⟨_, hsets, Or.inl ⟨rfl, rfl⟩⟩
  | @cons key w cs ms cs' h _ ih =>
      obtain ⟨hw, ps, hkey, hcut⟩ := h.cutInto
      obtain ⟨ts, hts⟩ := ih
      refine ⟨.text ps .quote :: .colon :: (Token.ofChars w ++ .comma :: ts), ?_, nofun, ?_⟩
      · intro rest hrest
        rw [List.append_assoc, List.cons_append, hcut.lex _ (ends_cons (by simp) _), ofChars_comma,
          hts.lex _ hrest]
        simp
      · intro fuel hfuel p p' rest rest'
        cases fuel with
        | zero => cases hfuel
        | succ fuel =>
            have hshort : ts.length ≤ fuel := by
              simp only [List.length_cons, List.length_append] at hfuel
              omega
            rw [List.cons_append, List.cons_append, List.append_assoc, List.cons_append,
              readMembers_succ hkey hw]
            constructor
            · rintro ⟨p₁, hsets, ⟨he, -⟩ | ⟨ts', he, hread⟩⟩
              · cases he
              · cases he
                obtain ⟨hcollects, rfl⟩ := (hts.read fuel hshort ..).mp hread
                exact ⟨.cons hsets hcollects, rfl⟩
            · rintro ⟨hcollects, rfl⟩
              obtain - | ⟨hsets, hcollects⟩ := hcollects
              exact ⟨_, hsets, Or.inr ⟨_, rfl, (hts.read fuel hshort ..).mpr ⟨hcollects, rfl⟩⟩⟩

/-- An object text is read as what its members make of an empty patch. -/
theorem ofBytes_objectText {text : String} (h : ObjectText ms text.toList) :
    codec.ofBytes (bytes text) = .ok p ↔ Collects {} ms p := by
  refine readAll_eq_ok.trans ?_
  rw [tokens_bytes]
  generalize text.toList = cs at h
  cases h with
  | empty hb₁ hb₂ hb₃ =>
      rw [ofChars_blanks hb₁, ofChars_openObject, ofChars_blanks hb₂, ofChars_closeObject,
        ofChars_blanks_alone hb₃]
      constructor
      · intro h
        cases h
        exact .nil _
      · intro h
        cases h
        rfl
  | members hb₁ h hb₂ =>
      obtain ⟨ts, hts⟩ := exists_readsMembers h
      have hfuel : ts.length ≤ (ts ++ [Token.closeObject]).length := by simp
      rw [ofChars_blanks hb₁, ofChars_openObject, hts.lex _ (ends_cons (by simp) _),
        ofChars_closeObject, ofChars_blanks_alone hb₂]
      have hread := Record.read_object (r := record) (hts.opens [.closeObject])
      constructor
      · intro h
        replace h := hread.symm.trans h
        split at h
        · rename_i draft rest hmembers
          obtain ⟨hclose, rfl⟩ := Record.map_lift_eq_ok.mp h
          cases hclose
          exact ((hts.read _ hfuel ..).mp hmembers).1
        · cases h
      · intro hcollects
        have hmembers := (hts.read _ hfuel {} p [] []).mpr ⟨hcollects, rfl⟩
        refine hread.trans ?_
        rw [show record.empty = {} from rfl, hmembers]
        rfl

/-! A key that has half of a surrogate pair by itself spells nothing, and is refused. -/

theorem exists_key {fuel : Nat} {ps : List Piece} {e : Closing} {ts rest : List Token}
    (h : record.readMembers fuel p (.text ps e :: ts) = .ok (p', rest)) :
    ∃ key, textOf ps e = .ok key := by
  cases fuel with
  | zero => cases h
  | succ fuel =>
      cases hkey : textOf ps e with
      | error f =>
          simp only [Record.readMembers, hkey] at h
          cases h
      | ok key => exact ⟨key, rfl⟩

theorem exists_member {cs : List Char} (hw : Word .member cs) {fuel : Nat} {rest rest' : List Token}
    (h : record.readMembers (fuel + 1) p (Token.ofChars cs ++ rest) = .ok (p', rest')) :
    ∃ key w, Member key w cs ∧ ∀ ts, rest = .comma :: ts →
      ∃ p₁, record.readMembers fuel p₁ ts = .ok (p', rest') := by
  cases hw with
  | member hb₁ hl hb₂ helement =>
      cases helement with
      | element hb₃ hvalue hb₄ =>
          have hcut := CutInto.member hb₁ hl hb₂ (.element hb₃ (cutInto_ofChars hvalue) hb₄)
          rw [← hcut.eq_ofChars] at h
          obtain ⟨key, hkey⟩ := exists_key h
          have hmember := Member.mk hb₁ hl ((textOf_eq_ok hl).mp hkey) hb₂ hb₃ hvalue hb₄
          refine ⟨key, _, hmember, ?_⟩
          rintro ts rfl
          obtain ⟨p₁, -, ⟨⟨⟩, -⟩ | ⟨_, ⟨⟩, hrest⟩⟩ := (readMembers_succ hkey hvalue).mp h
          exact ⟨p₁, hrest⟩

theorem exists_members {cs : List Char} (hw : Word .members cs) {fuel : Nat}
    {rest rest' : List Token}
    (h : record.readMembers fuel p (Token.ofChars cs ++ .closeObject :: rest) = .ok (p', rest')) :
    ∃ ms, Members ms cs := by
  generalize hform : Form.members = form at hw
  induction hw generalizing fuel p with
  | members_one hmember =>
      cases fuel with
      | zero => cases h
      | succ fuel =>
          obtain ⟨key, w, hkey, -⟩ := exists_member hmember h
          exact ⟨_, .one hkey⟩
  | members_cons hmember hmembers _ ih =>
      have hcut := (cutInto_ofChars hmember).members_cons (cutInto_ofChars hmembers)
      rw [← hcut.eq_ofChars, List.append_assoc] at h
      cases fuel with
      | zero => cases h
      | succ fuel =>
          obtain ⟨key, w, hkey, hrest⟩ := exists_member hmember h
          obtain ⟨p₁, hread⟩ := hrest _ rfl
          obtain ⟨ms, hms⟩ := ih hread rfl
          exact ⟨_, .cons hkey hms⟩
  | _ => cases hform

theorem ofChars_member {cs : List Char} (hw : Word .member cs) :
    ∃ ps ts, Token.ofChars cs = .text ps .quote :: ts := by
  cases hw with
  | member hb₁ hl hb₂ helement =>
      have hcut := CutInto.member hb₁ hl hb₂ (cutInto_ofChars helement)
      exact ⟨_, _, hcut.eq_ofChars.symm⟩

theorem ofChars_members {cs : List Char} (hw : Word .members cs) :
    ∃ ps ts, Token.ofChars cs = .text ps .quote :: ts := by
  cases hw with
  | members_one hmember => exact ofChars_member hmember
  | members_cons hmember hmembers =>
      have hcut := (cutInto_ofChars hmember).members_cons (cutInto_ofChars hmembers)
      obtain ⟨ps, ts, hts⟩ := ofChars_member hmember
      exact ⟨ps, _, by rw [← hcut.eq_ofChars, hts]; rfl⟩

/-- An object that is read is one whose keys spell texts: one with half of a surrogate pair in a key
is refused. -/
theorem exists_objectText {text : String} {b b' cs : List Char} (hb : Blanks b)
    (hw : Word .members cs) (hb' : Blanks b')
    (htext : text.toList = b ++ '\x7b' :: (cs ++ '\x7d' :: b'))
    (h : codec.ofBytes (bytes text) = .ok p) : ∃ ms, ObjectText ms text.toList := by
  replace h := readAll_eq_ok.mp h
  have hcut := cutInto_ofChars hw
  have hopen : ∀ ts', Token.ofChars cs ++ [.closeObject] ≠ .closeObject :: ts' := by
    obtain ⟨ps, ts, hts⟩ := ofChars_members hw
    simp [hts]
  rw [tokens_bytes, htext, ofChars_blanks hb, ofChars_openObject,
    hcut.lex _ (ends_cons (by simp) _), ofChars_closeObject, ofChars_blanks_alone hb'] at h
  have hread := Record.read_object (r := record) hopen
  replace h := hread.symm.trans h
  split at h
  · rename_i draft rest hmembers
    obtain ⟨ms, hms⟩ := exists_members hw hmembers
    exact ⟨ms, htext ▸ .members hb hms hb'⟩
  · cases h

/-! What members make of a patch. -/

theorem Collects.not_mem (h : Collects p ms p') (hc : p.value? c ≠ none) (w : List Char) :
    (c.name, w) ∉ ms := by
  induction h with
  | nil => simp
  | @cons p p₁ p' key w' ms hm _ ih =>
      have hkey : key ≠ c.name := by
        rintro rfl
        exact hc hm.column.1
      intro hmem
      rcases List.mem_cons.mp hmem with he | hmem
      · cases he
        exact hkey rfl
      · refine ih ?_ hmem
        rw [hm.value?_of_ne hkey]
        exact hc

theorem Sets.not_mem {p₁ : UserPatch} (hm : Sets p c.name w p₁) (h : Collects p₁ ms p')
    (w' : List Char) : (c.name, w') ∉ ms := by
  obtain ⟨-, v, hv, rfl⟩ := hm.column
  refine h.not_mem ?_ w'
  rw [value?_put hv, if_pos rfl]
  exact Option.some_ne_none v

theorem Collects.value?_eq_some_iff (h : Collects p ms p') :
    p'.value? c = some v ↔ p.value? c = some v ∨ ∃ w, (c.name, w) ∈ ms ∧ Takes c w v := by
  induction h with
  | nil => simp
  | @cons p p₁ p' key w' ms hm h ih =>
      rw [ih]
      by_cases hkey : key = c.name
      · subst hkey
        have hnone := hm.not_mem h
        obtain ⟨hfree, v', hv, rfl⟩ := hm.column
        rw [value?_put hv, if_pos rfl, hfree]
        constructor
        · rintro (he | ⟨w, hw, -⟩)
          · cases he
            exact Or.inr ⟨w', List.mem_cons_self .., hv⟩
          · exact absurd hw (hnone w)
        · rintro (he | ⟨w, hw, htakes⟩)
          · cases he
          · rcases List.mem_cons.mp hw with he | hw
            · cases he
              exact Or.inl (congrArg some (hv.unique htakes))
            · exact absurd hw (hnone w)
      · have hmem (w : List Char) : (c.name, w) ∈ (key, w') :: ms ↔ (c.name, w) ∈ ms := by
          simp [Ne.symm hkey]
        simp only [hmem, hm.value?_of_ne hkey]

theorem Collects.named_once (h : Collects p ms p') (c : Column) :
    (ms.map (·.1)).count c.name ≤ 1 := by
  induction h with
  | nil => exact Nat.zero_le _
  | @cons p p₁ p' key w ms hm h ih =>
      rw [List.map_cons, List.count_cons]
      by_cases hkey : key = c.name
      · subst hkey
        have hnone : c.name ∉ ms.map (·.1) := by
          intro hc
          obtain ⟨⟨_, w'⟩, hmem, rfl⟩ := List.mem_map.mp hc
          exact hm.not_mem h w' hmem
        simp [List.count_eq_zero_of_not_mem hnone]
      · simpa [hkey] using ih

theorem Collects.takes (h : Collects p ms p') (hmem : (c.name, w) ∈ ms) :
    p.value? c = none ∧ ∃ v, Takes c w v := by
  induction h with
  | nil => cases hmem
  | @cons p p₁ p' key w' ms hm h ih =>
      by_cases hkey : key = c.name
      · subst hkey
        obtain ⟨hfree, v, hv, rfl⟩ := hm.column
        rcases List.mem_cons.mp hmem with he | hmem
        · cases he
          exact ⟨hfree, v, hv⟩
        · exact absurd hmem (hm.not_mem h w)
      · rcases List.mem_cons.mp hmem with he | hmem
        · cases he
          exact absurd rfl hkey
        · rw [← hm.value?_of_ne hkey]
          exact ih hmem

theorem exists_collects (hkeys : ∀ c : Column, (ms.map (·.1)).count c.name ≤ 1)
    (hvalues : ∀ (c : Column) w, (c.name, w) ∈ ms → p.value? c = none ∧ ∃ v, Takes c w v) :
    ∃ p', Collects p ms p' := by
  induction ms generalizing p with
  | nil => exact ⟨p, .nil p⟩
  | cons m ms ih =>
      obtain ⟨key, w⟩ := m
      have hcount (c : Column) : (ms.map (·.1)).count c.name ≤ 1 :=
        Nat.le_trans List.count_le_count_cons (hkeys c)
      have hm : ∃ p₁, Sets p key w p₁ := by
        by_cases hkey : ∃ c : Column, c.name = key
        · obtain ⟨c, rfl⟩ := hkey
          obtain ⟨hfree, v, hv⟩ := hvalues c w (List.mem_cons_self ..)
          exact ⟨_, .known rfl hfree hv⟩
        · exact ⟨p, .unknown fun c hc => hkey ⟨c, hc⟩⟩
      obtain ⟨p₁, hm⟩ := hm
      obtain ⟨p', h⟩ := ih hcount fun c w' hw' => by
        have hkey : key ≠ c.name := by
          rintro rfl
          have htwice := hkeys c
          have hmem : c.name ∈ ms.map (·.1) := List.mem_map_of_mem hw'
          rw [List.map_cons, List.count_cons_self] at htwice
          have hpos := List.count_pos_iff.mpr hmem
          omega
        rw [hm.value?_of_ne hkey]
        exact hvalues c w' (List.mem_cons_of_mem _ hw')
      exact ⟨p', .cons hm h⟩

end UserPatch

/-- How a text is decoded as a patch that holds an object with the given members. -/
structure DecodesToItsFields (ms : List (String × List Char)) (bs : List UInt8) : Prop where
  accepted : (∃ p, UserPatch.codec.ofBytes bs = .ok p) ↔
    (∀ c : Column, (ms.map (·.1)).count c.name ≤ 1) ∧
      ∀ (c : Column) w, (c.name, w) ∈ ms → ∃ v, Takes c w v
  distinct : (ms.map (·.1)).Nodup → ((∃ p, UserPatch.codec.ofBytes bs = .ok p) ↔
    ∀ (c : Column) w, (c.name, w) ∈ ms → ∃ v, Takes c w v)
  listed : ∀ {p}, UserPatch.codec.ofBytes bs = .ok p →
    ∀ c v, (c, v) ∈ p.toList ↔ ∃ w, (c.name, w) ∈ ms ∧ Takes c w v
  ordered : ∀ {p}, UserPatch.codec.ofBytes bs = .ok p →
    p.toList.map (·.1) = Column.all.filter fun c => c.name ∈ ms.map (·.1)
  null : ∀ c : Column, (c.name, "null".toList) ∈ ms →
    ∃ f, UserPatch.codec.ofBytes bs = .error f
  twice : ∀ c : Column, 2 ≤ (ms.map (·.1)).count c.name →
    ∃ f, UserPatch.codec.ofBytes bs = .error f

theorem exists_error {α : Type} {x : Except Fault α} (h : ∀ a, x ≠ .ok a) : ∃ f, x = .error f := by
  cases x with
  | error f => exact ⟨f, rfl⟩
  | ok a => exact absurd rfl (h a)

/-- A patch is read from an object text if and only if every field that is named has a value of its
type, and then it lists these fields and no others. -/
theorem patch_decodes_to_its_fields {text : String} (h : ObjectText ms text.toList) :
    DecodesToItsFields ms (bytes text) := by
  have hcollects {p : UserPatch} : UserPatch.codec.ofBytes (bytes text) = .ok p ↔
      UserPatch.Collects {} ms p := UserPatch.ofBytes_objectText h
  have hlisted {p : UserPatch} (hp : UserPatch.codec.ofBytes (bytes text) = .ok p) (c : Column)
      (v : FieldValue) : p.value? c = some v ↔ ∃ w, (c.name, w) ∈ ms ∧ Takes c w v := by
    rw [(hcollects.mp hp).value?_eq_some_iff, UserPatch.value?_empty]
    simp
  have haccepted : (∃ p, UserPatch.codec.ofBytes (bytes text) = .ok p) ↔
      (∀ c : Column, (ms.map (·.1)).count c.name ≤ 1) ∧
        ∀ (c : Column) w, (c.name, w) ∈ ms → ∃ v, Takes c w v := by
    constructor
    · rintro ⟨p, hp⟩
      have h := hcollects.mp hp
      exact ⟨h.named_once, fun c w hw => (h.takes hw).2⟩
    · rintro ⟨hkeys, hvalues⟩
      obtain ⟨p, hp⟩ := UserPatch.exists_collects hkeys fun c w hw =>
        ⟨UserPatch.value?_empty c, hvalues c w hw⟩
      exact ⟨p, hcollects.mpr hp⟩
  refine ⟨haccepted, fun hnodup => haccepted.trans (and_iff_right fun c => ?_), fun hp c v => ?_,
    fun {p} hp => ?_, fun c hc => ?_, fun c hc => ?_⟩
  · exact List.nodup_iff_count_le_one.mp hnodup _
  · rw [UserPatch.mem_toList_iff, hlisted hp]
  · rw [UserPatch.map_fst_toList]
    congr 1
    funext c
    rw [Bool.eq_iff_iff, Option.isSome_iff_exists, decide_eq_true_eq]
    constructor
    · rintro ⟨v, hv⟩
      obtain ⟨w, hw, -⟩ := (hlisted hp c v).mp hv
      exact List.mem_map_of_mem hw
    · intro hkey
      obtain ⟨⟨_, w⟩, hw, rfl⟩ := List.mem_map.mp hkey
      obtain ⟨-, v, hv⟩ := (hcollects.mp hp).takes hw
      exact ⟨v, (hlisted hp c v).mpr ⟨w, hw, hv⟩⟩
  · refine exists_error fun p hp => ?_
    obtain ⟨-, v, hv⟩ := (hcollects.mp hp).takes hc
    exact not_takes_null hv
  · refine exists_error fun p hp => ?_
    have honce := (hcollects.mp hp).named_once c
    omega

/-- A text with an unknown key and an escaped one. -/
theorem patch_decodes_to_its_fields_of_escaped_key :
    let text := " \x7b\"x\":[-1.5e3, null],\n\"\\u0065mail\" : \"\",\"is_admin\":false\x7d"
    let ms : List (String × List Char) :=
      [("x", "[-1.5e3, null]".toList), ("email", "\"\"".toList), ("is_admin", "false".toList)]
    ObjectText ms text.toList ∧ DecodesToItsFields ms (bytes text) ∧
      ∃ p, UserPatch.codec.ofBytes (bytes text) = .ok p ∧
        p.toList = [(.email, .text ""), (.isAdmin, .bool false)] := by
  intro text ms
  have hnone : Blanks [] := nofun
  have hspace : Blanks [' '] := by simp [Blanks]
  have hnewline : Blanks ['\n'] := by simp [Blanks]
  have hdigit (c : Char) (h : '0' ≤ c ∧ c ≤ '9') : Digits [c] := ⟨by simp, by simpa using h⟩
  have hnumber : NumberWord (['-'] ++ (['1'] ++ (['.', '5'] ++ 'e' :: ([] ++ ['3'])))) :=
    .mk (by decide) (hdigit '1' (by decide)) (by decide) (.some (hdigit '5' (by decide)))
      (.some (by decide) (by decide) (hdigit '3' (by decide)))
  have hlist : Word .value "[-1.5e3, null]".toList :=
    .list (.elements_cons (.element hnone (.number hnumber) hnone)
      (.elements_one (.element hspace .null hnone)))
  have hx : Member "x" "[-1.5e3, null]".toList "\"x\":[-1.5e3, null]".toList :=
    .mk (k := "x") hnone (.mk (.raw ['x'] (by decide))) (.raw ['x']) hnone hnone hlist hnone
  have hempty : Denotes "\"\"".toList (.text "") := .text (.mk .nil) .nil
  have hescape : Part (.unit 'e'.toNat) "\\u0065".toList :=
    .unit (i := 0) (j := 0) (m := 6) (n := 5) (.inl rfl) (.inl rfl) (.inl rfl) (.inl rfl)
  have hemail : Member "email" "\"\"".toList "\n\"\\u0065mail\" : \"\"".toList :=
    .mk (k := "email") hnewline (.mk (.cons hescape (.raw "mail".toList (by decide))))
      (.unit (by decide) (.raw "mail".toList)) hspace hspace (.text (.mk .nil)) hnone
  have hadmin : Member "is_admin" "false".toList "\"is_admin\":false".toList :=
    .mk (k := "is_admin") hnone (.mk (.raw "is_admin".toList (by decide)))
      (.raw "is_admin".toList) hnone hnone .false hnone
  have hmembers := Members.cons hx (.cons hemail (.one hadmin))
  have htext : ObjectText ms text.toList := by
    convert ObjectText.members hspace hmembers hnone using 1
    decide
  have hcollects : UserPatch.Collects {} ms { email := .present "", isAdmin := .present false } :=
    .cons (.unknown (by intro c; cases c <;> decide))
      (.cons (.known (c := .email) rfl rfl ⟨_, hempty, rfl⟩)
        (.cons (.known (c := .isAdmin) rfl rfl ⟨_, .false, rfl⟩) (.nil _)))
  exact ⟨htext, patch_decodes_to_its_fields htext, _,
    (UserPatch.ofBytes_objectText htext).mpr hcollects, rfl⟩

end UserDirectory
