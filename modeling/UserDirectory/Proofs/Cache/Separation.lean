import Mathlib.Data.List.Induction
import UserDirectory.Cache.Subject
import UserDirectory.Proofs.Cache.Handle
import UserDirectory.Proofs.Cache.Key
import UserDirectory.Proofs.User.Json

namespace UserDirectory

namespace CacheBackend

theorem remove_eq_ok {c : CacheBackend} {key : String} {found : Bool}
    (h : (c.remove key).1 = .ok found) : found = (c.kept? key).isSome := by
  cases c with
  | memory m =>
      cases h
      rw [kept?, Option.isSome_map]
  | redis r =>
      obtain ⟨r', hentries, hsend | ⟨_, hsend | hsend⟩⟩ := r.send_cases ["DEL", key] <;>
        simp only [remove, RedisCache.remove, hsend] at h <;> cases h
      rw [kept?, Option.isSome_map, hentries]

theorem contains_eq_ok {c : CacheBackend} {now : Nat} {key : String} {found : Bool}
    (h : (c.contains now key).1 = .ok found) : found = (c.live? now key).isSome := by
  rw [contains] at h
  rcases c.tryGet_cases now key with hread | ⟨_, hread | hread⟩ <;> rw [hread] at h <;> cases h
  rfl

end CacheBackend

namespace CacheSlot

variable {α : Type} {s : CacheSlot α} {c : CacheBackend} {now : Nat}

def request (s : CacheSlot α) : SlotCall α → CacheRequest
  | .tryGet => .get s.key
  | .contains => .get s.key
  | .set value lifetime => .set s.key (s.codec.toBytes value) lifetime
  | .remove => .remove s.key

theorem key_request (s : CacheSlot α) (call : SlotCall α) : (s.request call).key = s.key := by
  cases call <;> rfl

theorem tryGet_snd (s : CacheSlot α) (c : CacheBackend) (now : Nat) :
    (s.tryGet c now).2 = (c.get now s.key).2 := by
  rw [tryGet, ← CacheBackend.tryGet_snd]
  split <;> rename_i hread <;> rw [hread]

theorem perform_eq (s : CacheSlot α) (c : CacheBackend) (now : Nat) (call : SlotCall α) :
    s.perform c now call = c.serve now (s.request call) := by
  cases call with
  | tryGet => exact s.tryGet_snd c now
  | contains => exact c.tryGet_snd now s.key
  | set value lifetime => rfl
  | remove => rfl

theorem tryGet_cases (s : CacheSlot α) (c : CacheBackend) (now : Nat) :
    (c.live? now s.key = none ∧ (s.tryGet c now).1 = .ok none) ∨
      (∃ bs, c.live? now s.key = some bs ∧
        (s.tryGet c now).1 = (s.codec.ofEntry bs).map some) ∨
      ∃ reason, (s.tryGet c now).1 = .error (.connection reason) ∨
        (s.tryGet c now).1 = .error (.backend reason) := by
  rcases hanswer : c.tryGet now s.key with ⟨answer, c'⟩
  have hcases := c.tryGet_cases now s.key
  rw [hanswer] at hcases
  rcases hcases with rfl | ⟨reason, rfl | rfl⟩
  · rcases hlive : c.live? now s.key with _ | bs
    · exact .inl ⟨rfl, by simp only [tryGet, hanswer, hlive]⟩
    · exact .inr (.inl ⟨bs, rfl, by simp only [tryGet, hanswer, hlive]⟩)
  · exact .inr (.inr ⟨reason, .inl (by simp only [tryGet, hanswer])⟩)
  · exact .inr (.inr ⟨reason, .inr (by simp only [tryGet, hanswer])⟩)

/-- What a handle tells of a cache is what is kept under its own key. -/
structure SeesOwn (s : CacheSlot α) (c : CacheBackend) (now : Nat) : Prop where
  some_of_tryGet : ∀ {a}, (s.tryGet c now).1 = .ok (some a) →
    ∃ bs, c.live? now s.key = some bs ∧ s.codec.ofEntry bs = .ok a
  none_of_tryGet : (s.tryGet c now).1 = .ok none → c.live? now s.key = none
  contains : ∀ {found}, (s.contains c now).1 = .ok found → found = (c.live? now s.key).isSome
  remove : ∀ {found}, (s.remove c).1 = .ok found → found = (c.kept? s.key).isSome

theorem seesOwn (s : CacheSlot α) (c : CacheBackend) (now : Nat) : s.SeesOwn c now where
  some_of_tryGet := by
    intro a h
    rcases s.tryGet_cases c now with ⟨-, hread⟩ | ⟨bs, hlive, hread⟩ | ⟨_, hread | hread⟩ <;>
      rw [hread] at h
    · cases h
    · refine ⟨bs, hlive, ?_⟩
      cases hvalue : s.codec.ofEntry bs <;> rw [hvalue] at h <;> cases h
      rfl
    all_goals cases h
  none_of_tryGet := by
    intro h
    rcases s.tryGet_cases c now with ⟨hlive, -⟩ | ⟨bs, -, hread⟩ | ⟨_, hread | hread⟩
    · exact hlive
    · cases hvalue : s.codec.ofEntry bs <;> rw [hread, hvalue] at h <;> cases h
    all_goals
      rw [hread] at h
      cases h
  contains := CacheBackend.contains_eq_ok
  remove := CacheBackend.remove_eq_ok

end CacheSlot

namespace CacheSubject

theorem key_injective : Function.Injective key := by
  intro s t h
  cases s with
  | user a =>
      cases t with
      | user b => rw [CacheKey.user_injective h]
      | email e => exact absurd h.symm (CacheKey.email_ne_user e a)
  | email e =>
      cases t with
      | user a => exact absurd h (CacheKey.email_ne_user e a)
      | email f => rw [CacheKey.email_injective h]

theorem ofEntry_toBytes (s : CacheSubject) (a : s.Kept) :
    s.codec.ofEntry (s.codec.toBytes a) = .ok a := by
  cases s with
  | user id => exact User.ofEntry_toBytes a
  | email e => exact Uuid.ofEntry_toBytes a

end CacheSubject

namespace CacheBackend

variable {c : CacheBackend} {calls : List (Nat × SubjectCall)}

theorem performAll_concat (c : CacheBackend) (calls : List (Nat × SubjectCall)) (now : Nat)
    (x : SubjectCall) :
    c.performAll (calls ++ [(now, x)]) =
      (c.performAll calls).serve now (x.subject.slot.request x.call) := by
  rw [performAll, List.foldl_append, List.foldl_cons, List.foldl_nil, CacheSlot.perform_eq]
  rfl

theorem kept?_performAll {s : CacheSubject} (h : ∀ call ∈ calls, call.2.subject ≠ s)
    (c : CacheBackend) : (c.performAll calls).kept? s.key = c.kept? s.key := by
  induction calls using List.reverseRecOn with
  | nil => rfl
  | append_singleton calls call ih =>
      have hspares : (call.2.subject.slot.request call.2.call).Spares s.key := by
        intro hkey
        rw [CacheSlot.key_request] at hkey
        exact absurd (CacheSubject.key_injective hkey) (h call (by simp))
      rw [performAll_concat, kept?_serve_of_spares hspares]
      exact ih fun call hcall => h call (List.mem_append_left _ hcall)

/-- What is kept in a cache that was empty has been written through the handle of its subject. -/
theorem written_of_kept? (hempty : ∀ key, c.kept? key = none) {s : CacheSubject}
    {bs : List UInt8} (h : ((c.performAll calls).kept? s.key).map (·.1) = some bs) :
    ∃ a written lifetime, (written, ⟨s, .set a lifetime⟩) ∈ calls ∧ bs = s.codec.toBytes a := by
  induction calls using List.reverseRecOn with
  | nil =>
      rw [performAll, List.foldl_nil, hempty] at h
      cases h
  | append_singleton calls call ih =>
      obtain ⟨now, t, x⟩ := call
      rw [performAll_concat] at h
      rcases (c.performAll calls).kept?_serve_cases now (t.slot.request x) s.key with
        hsame | ⟨-, hgone⟩ | ⟨bs', lifetime, hset, hentry⟩
      · rw [hsame] at h
        obtain ⟨a, written, lifetime, hmem, hbs⟩ := ih h
        exact ⟨a, written, lifetime, List.mem_append_left _ hmem, hbs⟩
      · rw [hgone] at h
        cases h
      · cases x with
        | set a lifetime' =>
            obtain ⟨hkey, rfl, rfl⟩ := CacheRequest.set.inj hset
            obtain rfl := CacheSubject.key_injective hkey
            rw [hentry] at h
            exact ⟨a, now, lifetime', by simp, (Option.some.inj h).symm⟩
        | tryGet => cases hset
        | contains => cases hset
        | remove => cases hset

theorem kept?_of_live? {now : Nat} {key : String} {bs : List UInt8}
    (h : c.live? now key = some bs) : (c.kept? key).map (·.1) = some bs := by
  obtain ⟨e, hentry, hlive⟩ := Option.bind_eq_some_iff.mp h
  split at hlive
  · rw [hentry, Option.map_some, hlive]
  · cases hlive

end CacheBackend

namespace CacheSubject

/-- Handles for different subjects have nothing to do with each other. -/
structure HandlesApart : Prop where
  user_eq_iff : ∀ a b, CacheKey.user a = CacheKey.user b ↔ a = b
  email_eq_iff : ∀ e f, CacheKey.email e = CacheKey.email f ↔ e = f
  user_ne_email : ∀ a e, CacheKey.user a ≠ CacheKey.email e
  /-- Calls for other subjects leave what is kept for a subject. -/
  spared : ∀ (s : CacheSubject) (calls : List (Nat × SubjectCall)),
    (∀ call ∈ calls, call.2.subject ≠ s) →
      ∀ c : CacheBackend, (c.performAll calls).kept? s.key = c.kept? s.key
  seesOwn : ∀ (s : CacheSubject) (c : CacheBackend) (now : Nat), s.slot.SeesOwn c now
  /-- In a cache that was empty a handle finds nothing but values that were written for its subject,
  whatever calls there were for all subjects. -/
  written : ∀ c : CacheBackend, (∀ key, c.kept? key = none) →
    ∀ (calls : List (Nat × SubjectCall)) (s : CacheSubject) (now : Nat),
      (∀ a, (s.slot.tryGet (c.performAll calls) now).1 = .ok (some a) →
        ∃ written lifetime, (written, ⟨s, .set a lifetime⟩) ∈ calls) ∧
      ∀ reason, (s.slot.tryGet (c.performAll calls) now).1 ≠ .error (.deserialization reason)

theorem handles_apart : HandlesApart where
  user_eq_iff a b := CacheKey.user_injective.eq_iff
  email_eq_iff e f := CacheKey.email_injective.eq_iff
  user_ne_email a e := (CacheKey.email_ne_user e a).symm
  spared _ _ h c := CacheBackend.kept?_performAll h c
  seesOwn s c now := s.slot.seesOwn c now
  written c hempty calls s now := by
    -- Bytes that are read were written through the same handle, and are read back as they were.
    have hread : ∀ bs, (c.performAll calls).live? now s.key = some bs →
        ∃ a written lifetime, (written, ⟨s, .set a lifetime⟩) ∈ calls ∧
          s.codec.ofEntry bs = .ok a := by
      intro bs hlive
      obtain ⟨a, written, lifetime, hmem, rfl⟩ :=
        CacheBackend.written_of_kept? hempty (CacheBackend.kept?_of_live? hlive)
      exact ⟨a, written, lifetime, hmem, s.ofEntry_toBytes a⟩
    constructor
    · intro a ha
      obtain ⟨bs, hlive, hvalue⟩ := (s.slot.seesOwn _ now).some_of_tryGet ha
      obtain ⟨a', written, lifetime, hmem, hvalue'⟩ := hread bs hlive
      obtain rfl := Except.ok.inj (hvalue.symm.trans hvalue')
      exact ⟨written, lifetime, hmem⟩
    · intro reason herror
      rcases s.slot.tryGet_cases (c.performAll calls) now with
        ⟨-, hanswer⟩ | ⟨bs, hlive, hanswer⟩ | ⟨_, hanswer | hanswer⟩ <;> rw [hanswer] at herror
      · cases herror
      · obtain ⟨a, _, _, -, hvalue⟩ := hread bs hlive
        have hcodec : s.slot.codec.ofEntry bs = .ok a := hvalue
        rw [hcodec] at herror
        cases herror
      all_goals cases herror

end CacheSubject

end UserDirectory
