import UserDirectory.Proofs.Json.Literals
import UserDirectory.Proofs.Json.Record

/-!
Objects member by member: the keys and what is found under them. What a record makes of an object
is decided by the values under the keys of its fields, whatever stands under other keys and in
whatever order, and it is the same whether the values are read or taken from a tree.
-/

namespace UserDirectory.Json

/-- The members of an object from a key on, at most `fuel`. Each is a key and the value under it,
unless that can only be skipped. -/
def membersFrom : (fuel : Nat) → List Token → Option (List (String × Option Value))
  | fuel + 1, .text ps e :: .colon :: ts =>
    match textOf ps e, skip ts with
    | .ok key, .ok rest =>
      let value := Value.ofTokens? (ts.take (ts.length - rest.length))
      match rest with
      | .closeObject :: _ => some [(key, value)]
      | .comma :: rest => (membersFrom fuel rest).map ((key, value) :: ·)
      | _ => none
    | _, _ => none
  | _, _ => none

/-- The members of the object that a sequence of tokens begins with. -/
def membersOf : List Token → List (String × Option Value)
  | .openObject :: .closeObject :: _ => []
  | .openObject :: ts => (membersFrom ts.length ts).getD []
  | _ => []

def valuesAt (key : String) (ms : List (String × Option Value)) : List (Option Value) :=
  (ms.filter (·.1 = key)).map (·.2)

theorem valuesAt_cons_self (key : String) (v : Option Value) (ms : List (String × Option Value)) :
    valuesAt key ((key, v) :: ms) = v :: valuesAt key ms := by
  simp [valuesAt]

theorem valuesAt_cons_of_ne {key key' : String} (h : key' ≠ key) (v : Option Value)
    (ms : List (String × Option Value)) : valuesAt key ((key', v) :: ms) = valuesAt key ms := by
  simp [valuesAt, h]

def legible (es : List (String × Value)) : List (String × Option Value) :=
  es.map fun e => (e.1, some e.2)

variable {α β δ : Type} {room : Nat}

namespace Record

variable {r : Record α δ} {draft draft' : δ} {f : RecordField δ} {key : String}
  {ms ms' : List (String × Option Value)}

/-- What a member makes of a draft. The value under an unknown key makes nothing of it. -/
inductive Adds (r : Record α δ) (draft : δ) (m : String × Option Value) : δ → Prop
  | known {f : RecordField δ} {v : Value} {set : δ → δ} (hf : r.field? m.1 = some f)
      (hv : m.2 = some v) (hset : f.value.take v = .ok set) : Adds r draft m (set draft)
  | unknown (hf : r.field? m.1 = none) : Adds r draft m draft

/-- The members of an object lead a draft to another. -/
inductive Gathers (r : Record α δ) : δ → List (String × Option Value) → δ → Prop
  | nil (draft : δ) : Gathers r draft [] draft
  | cons {draft draft₁ draft' : δ} {m : String × Option Value} {ms : List (String × Option Value)}
      (hm : r.Adds draft m draft₁) (h : Gathers r draft₁ ms draft') :
      Gathers r draft (m :: ms) draft'

theorem mem_of_field? (h : r.field? key = some f) : f ∈ r.fields := List.mem_of_find?_eq_some h

theorem key_of_field? (h : r.field? key = some f) : f.key = key := by
  simpa using List.find?_some h

/-! Members that are read from tokens, and members that are taken from a tree. -/

theorem adds_of_readMember (hliterals : ∀ f ∈ r.fields, f.value.OfLiterals) {ts rest : List Token}
    (h : r.readMember key draft ts = .ok (draft', rest)) :
    ∃ ts', ts = .colon :: ts' ∧ skip ts' = .ok rest ∧
      r.Adds draft (key, Value.ofTokens? (ts'.take (ts'.length - rest.length))) draft' := by
  rw [readMember.eq_def] at h
  split at h
  · rename_i f hf
    split at h
    · cases h
    · split at h
      · rename_i ts
        obtain ⟨⟨set, rest⟩, hread, hdraft⟩ := ok_of_map h
        cases hdraft
        obtain ⟨t, v, rfl, ht, htake⟩ := (hliterals f (mem_of_field? hf)).token hread
        have htree : readTree 0 (t :: rest) = .ok (v, rest) := readTree_literal ht rest
        exact ⟨_, rfl, skip_of_readTree htree,
          .known hf (Value.ofTokens?_of_readTree htree) htake⟩
      · cases h
  · rename_i hf
    split at h
    · obtain ⟨rest, hskip, hdraft⟩ := ok_of_map h
      cases hdraft
      exact ⟨_, rfl, hskip, .unknown hf⟩
    · cases h

theorem gathers_of_readMembers (hliterals : ∀ f ∈ r.fields, f.value.OfLiterals) {fuel : Nat}
    {ts rest : List Token} (h : r.readMembers fuel draft ts = .ok (draft', rest)) :
    ∃ ms, membersFrom fuel ts = some ms ∧ r.Gathers draft ms draft' := by
  fun_induction r.readMembers fuel draft ts with
  | case3 fuel draft ps e ts key hkey draft' rest hmember =>
      cases h
      obtain ⟨ts, rfl, hskip, hadds⟩ := adds_of_readMember hliterals hmember
      exact ⟨_, by simp [membersFrom, hkey, hskip], .cons hadds (.nil _)⟩
  | case4 fuel draft ps e ts key hkey draft₁ rest hmember ih =>
      obtain ⟨ms, hms, hgathers⟩ := ih h
      obtain ⟨ts, rfl, hskip, hadds⟩ := adds_of_readMember hliterals hmember
      exact ⟨_, by simp [membersFrom, hkey, hskip, hms], .cons hadds hgathers⟩
  | _ => cases h

theorem gathers_of_takeMembers {es : List (String × Value)}
    (h : r.takeMembers draft es = .ok draft') : r.Gathers draft (legible es) draft' := by
  fun_induction r.takeMembers draft es with
  | case1 =>
      cases h
      exact .nil _
  | case2 draft key v es hf ih => exact .cons (.unknown hf) (ih h)
  | case3 => cases h
  | case4 draft key v es f hf hfree set hset ih => exact .cons (.known hf rfl hset) (ih h)
  | case5 => cases h

theorem gathers_of_decode (hliterals : ∀ f ∈ r.fields, f.value.OfLiterals) {bs : List UInt8} {a : α}
    (hobject : (tokens bs).head? = some .openObject) (h : r.decoder.decode bs = .ok a) :
    ∃ draft, r.Gathers r.empty (membersOf (tokens bs)) draft ∧ r.finish draft = a := by
  have hread := Decoder.read_of_decode h
  obtain ⟨ts, hts⟩ := List.head?_eq_some_iff.mp hobject
  rw [hts] at hread ⊢
  simp only [decoder] at hread
  split at hread
  · rename_i ts hts
    cases hts
    exact ⟨_, .nil _, finish_of_close (map_lift_eq_ok.mp hread).1⟩
  · rename_i ts hopen hts
    cases hts
    split at hread
    · rename_i draft rest hmembers
      obtain ⟨ms, hms, hgathers⟩ := gathers_of_readMembers hliterals hmembers
      refine ⟨draft, ?_, finish_of_close (map_lift_eq_ok.mp hread).1⟩
      rw [membersOf.eq_2 _ hopen, hms]
      exact hgathers
    · cases hread
  · cases ‹_ :: _ = _›
  · cases ‹_ :: _ = _›
  · cases hread

theorem gathers_of_take {es : List (String × Value)} {a : α}
    (h : r.decoder.take (.object es) = .ok a) :
    ∃ draft, r.Gathers r.empty (legible es) draft ∧ r.finish draft = a := by
  simp only [decoder] at h
  cases hdraft : r.takeMembers r.empty es with
  | error m =>
      rw [hdraft] at h
      cases h
  | ok draft =>
      rw [hdraft] at h
      exact ⟨draft, gathers_of_takeMembers hdraft, finish_of_close h⟩

end Record

/-! What is decided by the values under one key. -/

/-- Whether a field decides what is got from a draft, if it has a certain key, and otherwise makes
no difference to it. -/
structure RecordField.Tracks (f : RecordField δ) (key : String) (get : δ → β) : Prop where
  decides : f.key = key → ∀ {v set}, f.value.take v = .ok set → ∀ d d', get (set d) = get (set d')
  spares : f.key ≠ key → ∀ {v set}, f.value.take v = .ok set → ∀ d, get (set d) = get d

namespace RecordField

variable {γ : Type} {d : Decoder γ} {key key' : String} {absence : Absence} {put : δ → γ → δ}
  {has : δ → Option γ} {get : δ → β}

theorem take_of {v : Value} {set : δ → δ}
    (h : (RecordField.of key d absence has put).value.take v = .ok set) :
    ∃ c, set = fun draft => put draft c := by
  simp only [RecordField.of, Decoder.map, Decoder.refine] at h
  cases hc : d.take v with
  | error m =>
      rw [hc] at h
      cases h
  | ok c =>
      rw [hc] at h
      cases h
      exact ⟨c, rfl⟩

theorem tracks_own (h : ∀ draft draft' c, get (put draft c) = get (put draft' c)) :
    (RecordField.of key d absence has put).Tracks key get where
  decides _ _ _ htake draft draft' := by
    obtain ⟨c, rfl⟩ := take_of htake
    exact h draft draft' c
  spares hne := absurd rfl hne

theorem tracks_other (hne : key' ≠ key) (h : ∀ draft c, get (put draft c) = get draft) :
    (RecordField.of key' d absence has put).Tracks key get where
  decides he := absurd he hne
  spares _ _ _ htake draft := by
    obtain ⟨c, rfl⟩ := take_of htake
    exact h draft c

end RecordField

namespace Record

variable {r : Record α δ} {draft draft' : δ} {key : String} {get : δ → β}
  {ms : List (String × Option Value)}

/-- What is got from a draft after a value under a key, where it was `b` before. -/
def found (r : Record α δ) (key : String) (get : δ → β) (b : β) (v : Option Value) : β :=
  match (r.field? key).bind fun f => v.bind fun v => (f.value.take v).toOption with
  | some set => get (set r.empty)
  | none => b

/-- The values under a key decide what is got from a draft. -/
theorem Gathers.get_eq (htracks : ∀ f ∈ r.fields, f.Tracks key get)
    (h : r.Gathers draft ms draft') :
    get draft' = (valuesAt key ms).foldl (r.found key get) (get draft) := by
  induction h with
  | nil => rfl
  | @cons draft draft₁ draft' m ms hm h ih =>
      obtain ⟨key', v⟩ := m
      rw [ih]
      by_cases hkey : key' = key
      · subst hkey
        rw [valuesAt_cons_self, List.foldl_cons]
        congr 1
        cases hm with
        | known hf hv hset =>
            have htrack := htracks _ (mem_of_field? hf)
            simp only at hf hv
            simp only [found, hf, hv, Option.bind_some, hset]
            exact htrack.decides (key_of_field? hf) hset _ _
        | unknown hf =>
            simp only at hf
            simp only [found, hf, Option.bind_none]
      · rw [valuesAt_cons_of_ne hkey]
        congr 1
        cases hm with
        | known hf hv hset =>
            have hne : _ ≠ key := fun he => hkey ((key_of_field? hf).symm.trans he)
            exact (htracks _ (mem_of_field? hf)).spares hne hset _
        | unknown => rfl

end Record

/-! The members of a tree that is read are those that are told apart by skipping their values. -/

section Trees

variable {seen : List (String × Value)} {k key : String} {ts rest : List Token} {tree v : Value}

theorem growFrom_member {g : Growth} {ps : List Piece} {e : Closing} (hg : g = .key ∨ g = .firstKey)
    (hkey : textOf ps e = .ok key) :
    growFrom (room + 1) [.object seen k] g (.text ps e :: .colon :: ts) =
      match readTree room ts with
      | .ok (v, rest) => growFrom (room + 1) [.object seen key] (.grown v) rest
      | .error f => .error f := by
  have hstep : growToken (room + 1) [.object seen k] g (.text ps e) =
      .ok ([.object seen key], .colon) := by
    rcases hg with rfl | rfl <;> simp only [growToken, hkey, Except.map]
  rw [growFrom.eq_3 _ _ _ _ _ (fun _ hs _ => by cases hs), hstep]
  change growFrom (room + 1) ([] ++ [.object seen key]) .value ts = _
  rw [growFrom_append (Or.inr (Or.inl rfl)) (by simp) (by simp)]
  rfl

theorem growFrom_key {g : Growth} {ps : List Piece} {e : Closing} (hg : g = .key ∨ g = .firstKey)
    (h : growFrom (room + 1) [.object seen k] g (.text ps e :: ts) = .ok (tree, rest)) :
    ∃ key ts' v rest', textOf ps e = .ok key ∧ ts = .colon :: ts' ∧
      readTree room ts' = .ok (v, rest') ∧
      growFrom (room + 1) [.object seen key] (.grown v) rest' = .ok (tree, rest) := by
  have hstep : growToken (room + 1) [.object seen k] g (.text ps e) =
      (textOf ps e).map fun key => ([.object seen key], .colon) := by
    rcases hg with rfl | rfl <;> rfl
  have hfirst := h
  rw [growFrom.eq_3 _ _ _ _ _ (fun _ hs _ => by cases hs), hstep] at hfirst
  cases hkey : textOf ps e with
  | error f =>
      rw [hkey] at hfirst
      cases hfirst
  | ok key =>
      rw [hkey] at hfirst
      change growFrom (room + 1) [.object seen key] .colon ts = _ at hfirst
      cases ts with
      | nil => cases hfirst
      | cons t ts =>
          cases t with
          | colon =>
              rw [growFrom_member hg hkey] at h
              split at h
              · rename_i v rest' hread
                exact ⟨key, ts, v, rest', rfl, rfl, hread, h⟩
              · cases h
          | _ => cases hfirst

theorem growFrom_grown
    (h : growFrom room [.object seen key] (.grown v) ts = .ok (tree, rest)) :
    (ts = .closeObject :: rest ∧ tree = .object (seen.reverse ++ [(key, v)])) ∨
      ∃ ts', ts = .comma :: ts' ∧
        growFrom room [.object ((key, v) :: seen) key] .key ts' = .ok (tree, rest) := by
  cases ts with
  | nil => cases h
  | cons t ts =>
      cases t with
      | comma => exact Or.inr ⟨ts, rfl, h⟩
      | closeObject =>
          change growFrom room [] (.grown (.object ((key, v) :: seen).reverse)) ts = _ at h
          rw [growFrom] at h
          cases h
          exact Or.inl ⟨rfl, by rw [List.reverse_cons]⟩
      | _ => cases h

theorem length_le_of_readTree (h : readTree room ts = .ok (v, rest)) :
    rest.length ≤ ts.length := by
  obtain ⟨pre, rfl, -⟩ := growFrom_local h
  simp

/-- The members of an object that tokens from a key on hold, as trees, and what follows the
object. -/
inductive Holds (room : Nat) : List Token → List (String × Value) → List Token → Prop
  | last {ps : List Piece} {e : Closing} {key : String} {ts rest : List Token} {v : Value}
      (hkey : textOf ps e = .ok key) (hread : readTree room ts = .ok (v, .closeObject :: rest)) :
      Holds room (.text ps e :: .colon :: ts) [(key, v)] rest
  | cons {ps : List Piece} {e : Closing} {key : String} {ts ts' rest : List Token} {v : Value}
      {es : List (String × Value)} (hkey : textOf ps e = .ok key)
      (hread : readTree room ts = .ok (v, .comma :: ts')) (h : Holds room ts' es rest) :
      Holds room (.text ps e :: .colon :: ts) ((key, v) :: es) rest

theorem holds_of_growFrom {g : Growth} {n : Nat} (hg : g = .key ∨ g = .firstKey)
    (hopen : ∀ ts', ts ≠ .closeObject :: ts') (hn : ts.length ≤ n)
    (h : growFrom (room + 1) [.object seen k] g ts = .ok (tree, rest)) :
    ∃ es, tree = .object (seen.reverse ++ es) ∧ Holds room ts es rest := by
  induction n generalizing seen k g ts with
  | zero =>
      obtain rfl := List.length_eq_zero_iff.mp (Nat.le_zero.mp hn)
      cases h
  | succ n ih =>
      have htext : ∃ ps e ts', ts = .text ps e :: ts' := by
        cases ts with
        | nil => cases h
        | cons t ts =>
            rcases hg with rfl | rfl <;> cases t <;>
              first | exact ⟨_, _, _, rfl⟩ | exact (hopen _ rfl).elim | cases h
      obtain ⟨ps, e, ts, rfl⟩ := htext
      obtain ⟨key, ts, v, rest', hkey, rfl, hread, hgrown⟩ := growFrom_key hg h
      rcases growFrom_grown hgrown with ⟨rfl, rfl⟩ | ⟨ts', rfl, hnext⟩
      · exact ⟨[(key, v)], rfl, .last hkey hread⟩
      · have hshort : ts'.length ≤ n := by
          have hle := length_le_of_readTree hread
          simp only [List.length_cons] at hn hle
          omega
        have hnotClosed : ∀ ts'', ts' ≠ .closeObject :: ts'' := by
          rintro ts'' rfl
          cases hnext
        obtain ⟨es, htree, hes⟩ := ih (Or.inl rfl) hnotClosed hshort hnext
        refine ⟨(key, v) :: es, ?_, .cons hkey hread hes⟩
        rw [htree, List.reverse_cons, List.append_assoc, List.singleton_append]

theorem Holds.membersFrom {es : List (String × Value)} (h : Holds room ts es rest) :
    ∀ fuel, ts.length ≤ fuel → membersFrom fuel ts = some (legible es) := by
  induction h with
  | last hkey hread =>
      intro fuel hfuel
      cases fuel with
      | zero => cases hfuel
      | succ fuel =>
          simp only [Json.membersFrom, hkey, skip_of_readTree hread,
            Value.ofTokens?_of_readTree hread]
          rfl
  | cons hkey hread _ ih =>
      intro fuel hfuel
      cases fuel with
      | zero => cases hfuel
      | succ fuel =>
          have hle := length_le_of_readTree hread
          simp only [List.length_cons] at hfuel hle
          simp only [Json.membersFrom, hkey, skip_of_readTree hread,
            Value.ofTokens?_of_readTree hread, ih fuel (by omega)]
          rfl

theorem object_of_growFrom
    (h : growFrom (room + 1) [.object [] k] .firstKey ts = .ok (tree, rest)) :
    (ts = .closeObject :: rest ∧ tree = .object []) ∨
      (∀ ts', ts ≠ .closeObject :: ts') ∧ ∃ es, tree = .object es ∧ Holds room ts es rest := by
  by_cases hclosed : ∃ ts', ts = .closeObject :: ts'
  · obtain ⟨ts, rfl⟩ := hclosed
    change growFrom (room + 1) [] (.grown (.object [])) ts = _ at h
    rw [growFrom] at h
    cases h
    exact Or.inl ⟨rfl, rfl⟩
  · have hopen : ∀ ts', ts ≠ .closeObject :: ts' := fun ts' he => hclosed ⟨ts', he⟩
    exact Or.inr ⟨hopen, holds_of_growFrom (Or.inr rfl) hopen (Nat.le_refl _) h⟩

theorem membersOf_of_growFrom
    (h : growFrom (room + 1) [.object [] k] .firstKey ts = .ok (tree, rest)) :
    ∃ es, tree = .object es ∧ membersOf (.openObject :: ts) = legible es := by
  rcases object_of_growFrom h with ⟨rfl, rfl⟩ | ⟨hopen, es, rfl, hes⟩
  · exact ⟨[], rfl, rfl⟩
  · refine ⟨es, rfl, ?_⟩
    rw [membersOf.eq_2 _ hopen, hes.membersFrom _ (Nat.le_refl _)]
    rfl

end Trees

end UserDirectory.Json
