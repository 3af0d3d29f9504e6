import UserDirectory.Command
import UserDirectory.Proofs.Cache.Handle
import UserDirectory.Proofs.User.Json

namespace UserDirectory

open UserDirectory.Json

namespace Json

/-- A codec that reads back of every value what `keep` leaves of it, and of which the written form
holds no more than that. -/
structure Codec.KeepsUpTo {α : Type} (c : Codec α) (keep : α → α) : Prop where
  ofBytes_toBytes : ∀ a, c.ofBytes (c.toBytes a) = .ok (keep a)
  toBytes_eq_iff : ∀ a b, c.toBytes a = c.toBytes b ↔ keep a = keep b
  keep_of_ofBytes : ∀ bs a, c.ofBytes bs = .ok a → keep a = a

/-- A codec that reads back every value as it was written. -/
structure Codec.IsLossless {α : Type} (c : Codec α) : Prop where
  ofBytes_toBytes : ∀ a, c.ofBytes (c.toBytes a) = .ok a
  toBytes_injective : Function.Injective c.toBytes

variable {α : Type} {c : Codec α} {keep : α → α}

theorem Codec.keep_eq_of_toBytes_eq (h : ∀ a, c.ofBytes (c.toBytes a) = .ok (keep a)) {a b : α}
    (hab : c.toBytes a = c.toBytes b) : keep a = keep b := by
  have hb := h b
  rw [← hab, h a] at hb
  exact Except.ok.inj hb

theorem Codec.isLossless_of (h : ∀ a, c.ofBytes (c.toBytes a) = .ok a) : c.IsLossless :=
  ⟨h, fun a b hab => show id a = id b from Codec.keep_eq_of_toBytes_eq h hab⟩

theorem Codec.keepsUpTo_of (h : ∀ a, c.ofBytes (c.toBytes a) = .ok (keep a))
    (hencode : ∀ a, c.encode (keep a) = c.encode a)
    (hdecode : ∀ ts a rest, c.decoder.read ts = .ok (a, rest) → keep a = a) :
    c.KeepsUpTo keep := by
  have hbytes (a : α) : c.toBytes (keep a) = c.toBytes a := by
    rw [Codec.toBytes, hencode, Codec.toBytes]
  refine ⟨h, fun a b => ⟨Codec.keep_eq_of_toBytes_eq h, fun hab => ?_⟩, fun bs a ha => ?_⟩
  · rw [← hbytes a, hab, hbytes b]
  · exact hdecode _ _ _ (Decoder.read_of_decode ha)

/-! Objects of scalars read as trees. -/

theorem Leaf.growLeaf {v : Value} {t : Token} (h : Leaf v t) (room : Nat) (stack : List Frame) :
    growToken.growLeaf room stack t = .ok (stack, .grown v) := by
  cases h with
  | text s => simp [growToken.growLeaf, textToken, textOf_written, Except.map]
  | bool b => rfl

theorem growFrom_memberTokens {room : Nat} (ms : List Member) {start : Growth} {key : String}
    {seen : List (String × Value)} (hstart : start = .firstKey ∨ start = .key ∧ ms ≠ []) :
    growFrom room [.object seen key] start (memberTokens (ms.map Member.entryToken)) =
      .ok (.object (seen.reverse ++ ms.map Member.entry), []) := by
  induction ms generalizing start key seen with
  | nil =>
      obtain rfl | ⟨-, hne⟩ := hstart
      · simp [memberTokens, growFrom, growToken]
      · exact absurd rfl hne
  | cons m ms ih =>
      have hkey (ts : List Token) :
          growFrom room [.object seen key] start (textToken m.key :: .colon :: m.token :: ts) =
            growFrom room [.object seen m.key] (.grown m.value) ts := by
        obtain rfl | ⟨rfl, -⟩ := hstart <;>
          simp [growFrom, growToken, textToken, textOf_written, Except.map, m.leaf.growLeaf]
      cases ms with
      | nil => simp [memberTokens, Member.entryToken, Member.entry, hkey, growFrom, growToken]
      | cons m' ms =>
          have hrest : growFrom room [.object ((m.key, m.value) :: seen) m.key] .key _ = _ :=
            ih (.inr ⟨rfl, List.cons_ne_nil _ _⟩)
          simp only [List.map_cons, memberTokens, Member.entryToken] at hrest ⊢
          rw [hkey]
          simp only [growFrom, growToken, hrest]
          simp [Member.entry]

end Json

namespace User

theorem decode_contentJson {α : Type} (u : User) (name : String) (finish : UserDraft → α) :
    (Record.decoder ⟨name, UserDraft.contentFields .defaulted, {}, finish⟩).decode
        (Text.bytes u.contentJson.render) =
      .ok (finish (UserDraft.withContent {} u)) := by
  have hkeys : ((UserDraft.contentFields .defaulted).map (·.key)).Nodup := by decide
  have hfills := u.fills_content (r := ⟨name, UserDraft.contentFields .defaulted, {}, finish⟩)
    .defaulted hkeys (List.Subset.refl _) none none none none
  exact hfills.decode rfl

end User

def UpdateUserCommand.unaddressed (c : UpdateUserCommand) : UpdateUserCommand :=
  { c with userId := .nil }

def PatchUserCommand.unaddressed (c : PatchUserCommand) : PatchUserCommand :=
  { c with userId := .nil }

theorem CreateUserCommand.ofBytes_toBytes (c : CreateUserCommand) :
    codec.ofBytes (codec.toBytes c) = .ok c :=
  c.toUser.decode_contentJson _ _

namespace UpdateUserCommand

theorem ofBytes_toBytes (c : UpdateUserCommand) :
    codec.ofBytes (codec.toBytes c) = .ok c.unaddressed :=
  c.toUser.decode_contentJson _ _

theorem unaddressed_of_read {ts rest : List Token} {c : UpdateUserCommand}
    (h : decoder.read ts = .ok (c, rest)) : c.unaddressed = c := by
  obtain ⟨d, rfl⟩ := Record.finish_of_read h
  rfl

end UpdateUserCommand

namespace PatchUserCommand

theorem ofBytes_toBytes (c : PatchUserCommand) :
    codec.ofBytes (codec.toBytes c) = .ok c.unaddressed := by
  have hmembers : readMembers (memberTokens (c.patch.members.map Member.entryToken)) =
      .ok (c.patch.members.map Member.entry, []) := by
    rw [readMembers, growFrom_memberTokens _ (.inl rfl)]
    rfl
  have htake := c.patch.take_toJson
  have htokens := Member.tokens_object c.patch.members
  rw [c.patch.toJson_eq] at htake
  rw [← c.patch.toJson_eq] at htokens
  rw [Codec.ofBytes, Codec.toBytes, Decoder.decode, readAll]
  simp only [codec, toJson, decoder, htokens, hmembers, htake, Decoder.lift, bind, Except.bind]
  rfl

theorem read_eq_ok {ts rest : List Token} {c : PatchUserCommand}
    (h : decoder.read ts = .ok (c, rest)) :
    ∃ ts' es, ts = .openObject :: ts' ∧ readMembers ts' = .ok (es, rest) ∧
      UserPatch.decoder.take (.object es) = .ok c.patch ∧ c.unaddressed = c := by
  simp only [decoder] at h
  split at h
  · rename_i ts
    cases hmembers : readMembers ts with
    | error f =>
        rw [hmembers] at h
        cases h
    | ok p =>
        rw [hmembers] at h
        cases htake : UserPatch.decoder.take (.object p.1) with
        | error m => simp [htake, Decoder.lift, bind, Except.bind] at h
        | ok patch =>
            simp only [htake, Decoder.lift, bind, Except.bind] at h
            cases h
            exact ⟨ts, p.1, rfl, hmembers, htake, rfl⟩
  · cases h

theorem unaddressed_of_read {ts rest : List Token} {c : PatchUserCommand}
    (h : decoder.read ts = .ok (c, rest)) : c.unaddressed = c :=
  let ⟨_, _, _, _, _, hc⟩ := read_eq_ok h
  hc

end PatchUserCommand

/-- Reading undoes writing for all that is stored or exchanged. A handle whose codec is lossless
reads back what it wrote. -/
structure Json.RoundTrips : Prop where
  user : User.codec.IsLossless
  userVersion : UserVersion.codec.IsLossless
  userPatch : UserPatch.codec.IsLossless
  uuid : Codec.uuid.IsLossless
  createCommand : CreateUserCommand.codec.IsLossless
  updateCommand : UpdateUserCommand.codec.KeepsUpTo (·.unaddressed)
  patchCommand : PatchUserCommand.codec.KeepsUpTo (·.unaddressed)
  handle : ∀ {α : Type} (s : CacheSlot α), s.codec.IsLossless → ∀ c : CacheBackend,
    c.IsFaultFree → ∀ (now : Nat) (a : α) (lifetime : Nat), s.ReadsBack c now a lifetime

theorem Json.roundTrips : Json.RoundTrips where
  user := Codec.isLossless_of User.ofBytes_toBytes
  userVersion := Codec.isLossless_of UserVersion.ofBytes_toBytes
  userPatch := Codec.isLossless_of UserPatch.ofBytes_toBytes
  uuid := Codec.isLossless_of Scalar.uuid.ofBytes_toBytes
  createCommand := Codec.isLossless_of CreateUserCommand.ofBytes_toBytes
  updateCommand := Codec.keepsUpTo_of UpdateUserCommand.ofBytes_toBytes (fun _ => rfl)
    fun _ _ _ => UpdateUserCommand.unaddressed_of_read
  patchCommand := Codec.keepsUpTo_of PatchUserCommand.ofBytes_toBytes (fun _ => rfl)
    fun _ _ _ => PatchUserCommand.unaddressed_of_read
  handle s hs _ hc now a lifetime :=
    CacheSlot.readsBack hc (s.codec.ofEntry_of_ofBytes (hs.ofBytes_toBytes a)) now lifetime

end UserDirectory
