import UserDirectory.Json.Codec
import UserDirectory.Json.Record
import UserDirectory.Optional
import UserDirectory.Proofs.Json.Written
import UserDirectory.Proofs.Uuid

namespace UserDirectory.Json

open UserDirectory.Text

theorem readAll_eq_ok {α : Type} {read : Reader α} {bs : List UInt8} {a : α} :
    readAll read bs = .ok a ↔ read (tokens bs) = .ok (a, []) := by
  rw [readAll]
  split <;> simp_all

theorem Decoder.read_of_decode {α : Type} {d : Decoder α} {bs : List UInt8} {a : α}
    (h : d.decode bs = .ok a) : d.read (tokens bs) = .ok (a, []) :=
  readAll_eq_ok.mp h

/-- A type of values that are written as one token each and read back from it. -/
structure Scalar (α : Type) where
  codec : Codec α
  token : α → Token
  leaf : ∀ a, Leaf (codec.encode a) (token a)
  read : ∀ a rest, codec.decoder.read (token a :: rest) = .ok (a, rest)
  take : ∀ a, codec.decoder.take (codec.encode a) = .ok a

structure Member where
  key : String
  value : Value
  token : Token
  leaf : Leaf value token

namespace Member

def entry (m : Member) : String × Value := (m.key, m.value)

def entryToken (m : Member) : String × Token := (m.key, m.token)

theorem tokens_object (ms : List Member) :
    tokens (bytes (Value.object (ms.map entry)).render) =
      .openObject :: memberTokens (ms.map entryToken) := by
  refine Json.tokens_object ?_
  rw [List.forall₂_map_left_iff, List.forall₂_map_right_iff, List.forall₂_same]
  exact fun m _ => ⟨rfl, m.leaf⟩

theorem length_le_length_memberTokens (ms : List (String × Token)) :
    ms.length ≤ (memberTokens ms).length := by
  induction ms with
  | nil => exact Nat.zero_le _
  | cons m ms ih =>
      cases ms with
      | nil => simp [memberTokens]
      | cons m' ms =>
          simp only [memberTokens, List.length_cons] at ih ⊢
          omega

end Member

namespace Scalar

def text : Scalar String where
  codec := .text
  token := textToken
  leaf := .text
  read s rest := by simp [Codec.text, Decoder.text, textToken, textOf_written, Except.map]
  take _ := rfl

def bool : Scalar Bool where
  codec := .bool
  token := .bool
  leaf := .bool
  read _ _ := rfl
  take _ := rfl

def uuid : Scalar Uuid where
  codec := .uuid
  token u := textToken u.render
  leaf u := .text u.render
  read u rest := by
    simp [Codec.uuid, Decoder.uuid, Decoder.refine, textToken, textOf_written, Except.map,
      Decoder.uuidOf, Uuid.ofString?_render, Decoder.lift]
  take u := by
    simp [Codec.uuid, Decoder.uuid, Decoder.refine, Decoder.uuidOf, Uuid.ofString?_render,
      Except.bind]

variable {α : Type} (l : Scalar α)

def member (key : String) (a : α) : Member := ⟨key, l.codec.encode a, l.token a, l.leaf a⟩

theorem ofBytes_toBytes (a : α) : l.codec.ofBytes (l.codec.toBytes a) = .ok a := by
  have hscan := (l.leaf a).scanAll []
  rw [List.append_nil, Token.scanAll] at hscan
  rw [Codec.ofBytes, Codec.toBytes, Decoder.decode, readAll, tokens, symbols_bytes, Value.render,
    String.toList_ofList, hscan]
  simp only [l.read a]

end Scalar

namespace Record

variable {α δ : Type} {r : Record α δ} {draft draft' : δ}

theorem field?_of_mem (hkeys : (r.fields.map (·.key)).Nodup) {f : RecordField δ}
    (hf : f ∈ r.fields) : r.field? f.key = some f := by
  rw [field?]
  generalize r.fields = fields at hkeys hf
  induction fields with
  | nil => cases hf
  | cons g fields ih =>
      rw [List.map_cons, List.nodup_cons] at hkeys
      rcases List.mem_cons.mp hf with rfl | hf
      · simp
      · have hne : g.key ≠ f.key := fun h => hkeys.1 (h ▸ List.mem_map_of_mem hf)
        simpa [hne] using ih hkeys.2 hf

/-- The members of an object lead a draft to another. -/
inductive Fills (r : Record α δ) : δ → List Member → δ → Prop
  | nil (draft : δ) : Fills r draft [] draft
  | cons {draft draft' : δ} {m : Member} {ms : List Member} {f : RecordField δ} {set : δ → δ}
      (hf : r.field? m.key = some f) (hfree : f.isFilled draft = false)
      (hread : ∀ rest, f.value.read (m.token :: rest) = .ok (set, rest))
      (htake : f.value.take m.value = .ok set) (h : Fills r (set draft) ms draft') :
      Fills r draft (m :: ms) draft'

theorem Fills.scalar {β : Type} {l : Scalar β} {key : String} {absence : Absence}
    {get : δ → Option β} {set : δ → β → δ} {b : β} {ms : List Member}
    (hf : r.field? key = some (.of key l.codec.decoder absence get set)) (hfree : get draft = none)
    (h : r.Fills (set draft b) ms draft') : r.Fills draft (l.member key b :: ms) draft' := by
  have hread (rest : List Token) :
      (RecordField.of key l.codec.decoder absence get set).value.read
        ((l.member key b).token :: rest) = .ok (fun draft => set draft b, rest) := by
    simp [RecordField.of, Scalar.member, Decoder.map, Decoder.refine, l.read b rest, Decoder.lift,
      Except.map]
  have htake : (RecordField.of key l.codec.decoder absence get set).value.take
      (l.member key b).value = .ok fun draft => set draft b := by
    simp [RecordField.of, Scalar.member, Decoder.map, Decoder.refine, l.take b, Except.bind]
  exact .cons hf (by simp [RecordField.of, hfree]) hread htake h

/-- A member that is there only if its field is present; `put` is what a draft becomes by it. -/
theorem Fills.optional {β : Type} {l : Scalar β} {key : String} {absence : Absence}
    {get : δ → Option β} {set : δ → β → δ} {ms : List Member} (put : Optional β → δ)
    (o : Optional β) (hf : r.field? key = some (.of key l.codec.decoder absence get set))
    (hfree : get (put .absent) = none) (hput : ∀ b, set (put .absent) b = put (.present b))
    (h : r.Fills (put o) ms draft') :
    r.Fills (put .absent) ((o.toOption.map (l.member key)).toList ++ ms) draft' := by
  cases o with
  | absent => exact h
  | present b => exact .scalar hf hfree (hput b ▸ h)

theorem Fills.readMembers {ms : List Member} (h : r.Fills draft ms draft') :
    ∀ fuel, ms ≠ [] → ms.length ≤ fuel →
      r.readMembers fuel draft (memberTokens (ms.map Member.entryToken)) = .ok (draft', []) := by
  induction h with
  | nil => exact fun _ hne => absurd rfl hne
  | @cons draft draft' m ms f set hf hfree hread _ h ih =>
      intro fuel _ hfuel
      cases fuel with
      | zero => cases hfuel
      | succ fuel =>
          cases h with
          | nil =>
              simp [memberTokens, Member.entryToken, Record.readMembers, textToken, textOf_written,
                readMember, hf, hfree, hread _, Except.map]
          | cons hf' hfree' hread' htake' h' =>
              have hrest := ih fuel (by simp) (Nat.le_of_succ_le_succ hfuel)
              simp only [List.map_cons, memberTokens, Member.entryToken, Record.readMembers,
                textToken, textOf_written, readMember, hf, hfree, hread _, Except.map] at hrest ⊢
              exact hrest

theorem Fills.takeMembers {ms : List Member} (h : r.Fills draft ms draft') :
    r.takeMembers draft (ms.map Member.entry) = .ok draft' := by
  induction h with
  | nil => rfl
  | cons hf hfree _ htake _ ih =>
      simp only [List.map_cons, Member.entry, Record.takeMembers, hf, hfree, htake] at ih ⊢
      exact ih

theorem Fills.decode {ms : List Member} {a : α} (h : r.Fills r.empty ms draft)
    (hclose : r.close draft = .ok a) :
    r.decoder.decode (bytes (Value.object (ms.map Member.entry)).render) = .ok a := by
  rw [Decoder.decode, readAll, Member.tokens_object]
  cases ms with
  | nil =>
      cases h
      simp [memberTokens, decoder, hclose, Decoder.lift, Except.map]
  | cons m ms =>
      have hfuel := Member.length_le_length_memberTokens ((m :: ms).map Member.entryToken)
      rw [List.length_map] at hfuel
      have hread := h.readMembers _ (List.cons_ne_nil _ _) hfuel
      have hopen :
          ∃ ts, memberTokens ((m :: ms).map Member.entryToken) = textToken m.key :: ts := by
        cases ms with
        | nil => exact ⟨_, rfl⟩
        | cons m' ms => exact ⟨_, rfl⟩
      obtain ⟨ts, hts⟩ := hopen
      rw [hts] at hread ⊢
      simp only [decoder, textToken] at hread ⊢
      simp only [hread, hclose, Decoder.lift, Except.map]

theorem Fills.take {ms : List Member} {a : α} (h : r.Fills r.empty ms draft)
    (hclose : r.close draft = .ok a) :
    r.decoder.take (.object (ms.map Member.entry)) = .ok a := by
  simp only [decoder, h.takeMembers]
  exact hclose

/-! Whatever a record is read from, its value is that of a draft. -/

theorem finish_of_close {a : α} (h : r.close draft = .ok a) : r.finish draft = a := by
  rw [close] at h
  split at h
  · cases h
  · cases h
    rfl

theorem finish_of_closeShort {position : Nat} {missing : List (RecordField δ)} {a : α}
    (h : r.closeShort position missing draft = .ok a) : ∃ d, r.finish d = a := by
  rw [closeShort] at h
  split at h
  · cases h
  · cases h
    exact ⟨draft, rfl⟩

theorem map_lift_eq_ok {x : Except Mismatch α} {ts rest : List Token} {a : α} :
    (Decoder.lift x).map (fun a => (a, ts)) = .ok (a, rest) ↔ x = .ok a ∧ ts = rest := by
  cases x <;> simp [Decoder.lift, Except.map]

theorem finish_of_readElements {position : Nat} {fields : List (RecordField δ)}
    {ts rest : List Token} {a : α} (h : r.readElements position fields draft ts = .ok (a, rest)) :
    ∃ d, r.finish d = a := by
  induction fields generalizing position draft ts with
  | nil =>
      rw [readElements.eq_def] at h
      split at h
      · cases h
        exact ⟨_, rfl⟩
      · cases h
      · cases ‹[] = _›
  | cons f fields ih =>
      rw [readElements] at h
      split at h
      · cases h
      · exact finish_of_closeShort (map_lift_eq_ok.mp h).1
      · split at h
        · cases h
        · exact ih h
      · cases h

theorem finish_of_read {ts rest : List Token} {a : α}
    (h : r.decoder.read ts = .ok (a, rest)) : ∃ d, r.finish d = a := by
  simp only [decoder] at h
  split at h
  · exact ⟨_, finish_of_close (map_lift_eq_ok.mp h).1⟩
  · split at h
    · exact ⟨_, finish_of_close (map_lift_eq_ok.mp h).1⟩
    · cases h
  · exact finish_of_closeShort (map_lift_eq_ok.mp h).1
  · exact finish_of_readElements h
  · cases h

end Record

end UserDirectory.Json
