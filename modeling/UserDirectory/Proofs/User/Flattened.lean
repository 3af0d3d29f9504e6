import UserDirectory.Proofs.Json.Buffered
import UserDirectory.Proofs.Json.RoundTrip
import UserDirectory.User.Patch

namespace UserDirectory

open UserDirectory.Json

variable {bs : List UInt8} {ts rest : List Token} {c : PatchUserCommand} {p : UserPatch}

namespace UserPatch

theorem ofLiterals_fields {f : RecordField UserPatch} (hf : f ∈ record.fields) :
    f.value.OfLiterals := by
  simp only [record, List.mem_cons, List.not_mem_nil, or_false] at hf
  rcases hf with rfl | rfl | rfl | rfl | rfl | rfl | rfl | rfl
  all_goals
    first
    | exact Decoder.ofLiterals_uuid.of
    | exact Decoder.ofLiterals_text.of
    | exact Decoder.ofLiterals_bool.of

theorem field?_name_ne_none (c : Column) : record.field? c.name ≠ none := by
  cases c <;> simp [Record.field?, record, RecordField.of, Column.name]

end UserPatch

namespace PatchUserCommand

theorem readMembers_eq_ok {es : List (String × Value)} :
    readMembers ts = .ok (es, rest) ↔
      growFrom nesting [.object [] ""] .firstKey ts = .ok (.object es, rest) := by
  rw [readMembers]
  split <;> simp_all

theorem read_of_patch {es : List (String × Value)} (h : readMembers ts = .ok (es, rest))
    (htake : UserPatch.decoder.take (.object es) = .ok p) :
    decoder.read (.openObject :: ts) = .ok (⟨.nil, p⟩, rest) := by
  simp only [decoder, h, htake, Decoder.lift, bind, Except.bind]
  rfl

end PatchUserCommand

/-- How a text is decoded as a patch command and as a patch. -/
structure DecodesAlike (bs : List UInt8) : Prop where
  object : ∀ {c}, PatchUserCommand.codec.ofBytes bs = .ok c →
    ∃ es, Value.ofBytes bs = .ok (.object es)
  plain : ∀ {c}, PatchUserCommand.codec.ofBytes bs = .ok c →
    UserPatch.codec.ofBytes bs = .ok c.patch
  flattened : ∀ {p}, (tokens bs).head? = some .openObject →
    (∀ m ∈ membersOf (tokens bs), ∃ c : Column, c.name = m.1) →
      UserPatch.codec.ofBytes bs = .ok p → PatchUserCommand.codec.ofBytes bs = .ok ⟨.nil, p⟩
  notList : (tokens bs).head? = some .openList → ∀ c, PatchUserCommand.codec.ofBytes bs ≠ .ok c

/-- A text that is read as a patch command holds an object, and the same patch is read from it. A
text that holds an object without other keys than those of a patch is read as a patch command if it
is read as a patch. -/
theorem decodes_alike (bs : List UInt8) : DecodesAlike bs where
  object h := by
    obtain ⟨ts, es, hts, hmembers, -⟩ := PatchUserCommand.read_eq_ok (Decoder.read_of_decode h)
    have htree : readTree PatchUserCommand.nesting (.openObject :: ts) = .ok (.object es, []) :=
      PatchUserCommand.readMembers_eq_ok.mp hmembers
    refine ⟨es, readAll_eq_ok.mpr ?_⟩
    rw [hts]
    exact growFrom_room (Nat.le_of_eq (Nat.zero_add _)) htree
  plain h := by
    obtain ⟨ts, es, hts, hmembers, htake, -⟩ :=
      PatchUserCommand.read_eq_ok (Decoder.read_of_decode h)
    refine readAll_eq_ok.mpr ?_
    rw [hts]
    exact Record.read_of_growFrom (fun _ => UserPatch.ofLiterals_fields)
      (PatchUserCommand.readMembers_eq_ok.mp hmembers) htake
  flattened hobject hkeys h := by
    obtain ⟨ts, hts⟩ := List.head?_eq_some_iff.mp hobject
    have hread := Decoder.read_of_decode h
    rw [hts] at hread hkeys
    have hknown (m : String × Option Value) (hm : m ∈ membersOf (.openObject :: ts)) :
        UserPatch.record.field? m.1 ≠ none := by
      obtain ⟨c, hc⟩ := hkeys m hm
      rw [← hc]
      exact UserPatch.field?_name_ne_none c
    obtain ⟨es, hgrow, htake⟩ :=
      Record.growFrom_of_read (fun _ => UserPatch.ofLiterals_fields) hread hknown
    refine readAll_eq_ok.mpr ?_
    rw [hts]
    exact PatchUserCommand.read_of_patch (PatchUserCommand.readMembers_eq_ok.mpr hgrow) htake
  notList hlist c h := by
    obtain ⟨ts, es, hts, -⟩ := PatchUserCommand.read_eq_ok (Decoder.read_of_decode h)
    rw [hts] at hlist
    cases hlist

-- Half of a pair is skipped under an unknown key, but a tree cannot hold it.
example :
    let bs := Text.bytes "\x7b\"x\":\"\\uD800\",\"email\":\"\"\x7d"
    UserPatch.codec.ofBytes bs = .ok { email := .present "" } ∧
      (PatchUserCommand.codec.ofBytes bs).toOption = none := by
  constructor <;> cbv

end UserDirectory
