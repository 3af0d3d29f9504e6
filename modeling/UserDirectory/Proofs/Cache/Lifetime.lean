import Mathlib.Data.List.Induction
import UserDirectory.Proofs.Cache.Handle

namespace UserDirectory

namespace MemoryCache

variable {m : MemoryCache} {calls : List (Nat × CacheRequest)} {now maxLifetime : Nat}
  {key : String} {bs : List UInt8}

def serveAll (m : MemoryCache) (calls : List (Nat × CacheRequest)) : MemoryCache :=
  calls.foldl (fun m call => (m.serve call.1 call.2).2) m

theorem serveAll_append (m : MemoryCache) (before after : List (Nat × CacheRequest)) :
    m.serveAll (before ++ after) = (m.serveAll before).serveAll after :=
  List.foldl_append

theorem maxLifetime_serveAll (m : MemoryCache) (calls : List (Nat × CacheRequest)) :
    (m.serveAll calls).maxLifetime = m.maxLifetime := by
  induction calls generalizing m with
  | nil => rfl
  | cons call calls ih => exact (ih _).trans (m.maxLifetime_serve call.1 call.2)

theorem entry?_serve_of_spares {r : CacheRequest} (h : r.Spares key) (m : MemoryCache)
    (now : Nat) : MemoryCache.entry? (m.serve now r).2 key = m.entry? key := by
  cases r with
  | get key' => rfl
  | set key' bs lifetime => rw [serve, entry?_set, if_neg fun hkey => nomatch h hkey.symm]
  | remove key' => rw [serve, entry?_remove, if_neg fun hkey => nomatch h hkey.symm]

theorem entry?_serveAll_of_spares (h : ∀ call ∈ calls, call.2.Spares key) (m : MemoryCache) :
    MemoryCache.entry? (m.serveAll calls) key = m.entry? key := by
  induction calls generalizing m with
  | nil => rfl
  | cons call calls ih =>
      rw [List.forall_mem_cons] at h
      exact (ih h.2 _).trans (entry?_serve_of_spares h.1 m call.1)

/-- The entry under a key is that of its last write, if it was not removed since. -/
theorem entry?_serveAll_iff {e : CacheEntry} :
    MemoryCache.entry? (serveAll { maxLifetime } calls) key = some e ↔
      ∃ before lifetime after,
        calls = before ++ (e.written, .set key e.bytes lifetime) :: after ∧
          (∀ call ∈ after, call.2.Spares key) ∧ e.lifetime = min lifetime maxLifetime := by
  constructor
  · intro h
    induction calls using List.reverseRecOn with
    | nil => cases h
    | append_singleton calls call ih =>
        obtain ⟨now, r⟩ := call
        have hmax := maxLifetime_serveAll { maxLifetime } calls
        rw [serveAll_append] at h
        by_cases hspares : r.Spares key
        · obtain ⟨before, lifetime, after, rfl, hafter, hlifetime⟩ :=
            ih ((entry?_serve_of_spares hspares _ now).symm.trans h)
          refine ⟨before, lifetime, after ++ [(now, r)], by simp, ?_, hlifetime⟩
          intro call hcall
          rcases List.mem_append.mp hcall with hcall | hcall
          · exact hafter call hcall
          · rw [List.mem_singleton.mp hcall]
            exact hspares
        · rw [CacheRequest.Spares, Classical.not_imp] at hspares
          obtain ⟨rfl, hget⟩ := hspares
          change MemoryCache.entry? (MemoryCache.serve _ now r).2 r.key = some e at h
          cases r with
          | get key' => exact absurd rfl hget
          | set key' bs lifetime =>
              rw [serve, entry?_set, CacheRequest.key, if_pos rfl, hmax] at h
              obtain rfl := Option.some.inj h
              exact ⟨calls, lifetime, [], rfl, nofun, rfl⟩
          | remove key' =>
              rw [serve, entry?_remove, CacheRequest.key, if_pos rfl] at h
              cases h
  · rintro ⟨before, lifetime, after, rfl, hafter, hlifetime⟩
    have hmax := maxLifetime_serveAll { maxLifetime } before
    rw [serveAll_append]
    refine (entry?_serveAll_of_spares hafter _).trans ?_
    show MemoryCache.entry? (MemoryCache.serve _ e.written (.set key e.bytes lifetime)).2 key = _
    rw [serve, entry?_set, if_pos rfl, hmax, ← hlifetime]

end MemoryCache

/-- Whether the calls so far leave bytes to be read under a key: the last write of the key has put
them there, it was not removed since, and less time has gone by than they are kept. -/
def IsLive (maxLifetime : Nat) (calls : List (Nat × CacheRequest)) (now : Nat) (key : String)
    (bs : List UInt8) : Prop :=
  ∃ before written lifetime after,
    calls = before ++ (written, .set key bs lifetime) :: after ∧
      (∀ call ∈ after, call.2.Spares key) ∧ now - written < min lifetime maxLifetime

namespace MemoryCache

variable {m : MemoryCache} {calls : List (Nat × CacheRequest)} {now maxLifetime : Nat}
  {key : String} {bs : List UInt8}

theorem get?_serveAll_iff (hclock : ∀ call ∈ calls, call.1 ≤ now) :
    MemoryCache.get? (serveAll { maxLifetime } calls) now key = some bs ↔
      IsLive maxLifetime calls now key bs := by
  constructor
  · intro h
    obtain ⟨e, he, rfl, hlt⟩ := entry?_of_get? h
    obtain ⟨before, lifetime, after, rfl, hafter, hlifetime⟩ := entry?_serveAll_iff.mp he
    have hwritten : e.written ≤ now :=
      hclock _ (List.mem_append_right before List.mem_cons_self)
    refine ⟨before, e.written, lifetime, after, rfl, hafter, ?_⟩
    omega
  · rintro ⟨before, written, lifetime, after, rfl, hafter, hlt⟩
    have hwritten : written ≤ now :=
      hclock _ (List.mem_append_right before List.mem_cons_self)
    have he : MemoryCache.entry? (serveAll { maxLifetime } _) key =
        some ⟨bs, written, min lifetime maxLifetime⟩ :=
      entry?_serveAll_iff.mpr ⟨before, lifetime, after, rfl, hafter, rfl⟩
    refine get?_of_entry? he ?_
    show now < written + min lifetime maxLifetime
    omega

theorem isLive_filter_iff :
    IsLive maxLifetime (calls.filter fun call => call.2.key = key ∧ call.2 ≠ .get key) now key bs ↔
      IsLive maxLifetime calls now key bs := by
  have hspares : ∀ call : Nat × CacheRequest,
      call.2.Spares key ↔ ¬ decide (call.2.key = key ∧ call.2 ≠ .get key) = true := by
    intro call
    rw [CacheRequest.Spares, decide_eq_true_eq, not_and, not_not]
  constructor
  · rintro ⟨before, written, lifetime, after, hcalls, hafter, hlt⟩
    obtain ⟨before', rest, rfl, -, hrest⟩ := List.filter_eq_append_iff.mp hcalls
    obtain ⟨between, after', rfl, -, -, rfl⟩ := List.filter_eq_cons_iff.mp hrest
    refine ⟨before' ++ between, written, lifetime, after', by simp, ?_, hlt⟩
    intro call hcall
    by_cases hkept : call ∈ after'.filter fun call => call.2.key = key ∧ call.2 ≠ .get key
    · exact hafter call hkept
    · rw [hspares]
      intro hcounts
      exact hkept (List.mem_filter.mpr ⟨hcall, hcounts⟩)
  · rintro ⟨before, written, lifetime, after, rfl, hafter, hlt⟩
    refine ⟨before.filter fun call => call.2.key = key ∧ call.2 ≠ .get key, written, lifetime, [],
      ?_, nofun, hlt⟩
    have hgone : (after.filter fun call => call.2.key = key ∧ call.2 ≠ .get key) = [] := by
      rw [List.filter_eq_nil_iff]
      exact fun call hcall => (hspares call).mp (hafter call hcall)
    rw [List.filter_append, List.filter_cons, hgone, if_pos (by simp [CacheRequest.key])]

theorem get?_serveAll_filter (hclock : ∀ call ∈ calls, call.1 ≤ now) :
    MemoryCache.get? (serveAll { maxLifetime } (calls.filter fun call =>
        call.2.key = key ∧ call.2 ≠ .get key)) now key =
      MemoryCache.get? (serveAll { maxLifetime } calls) now key := by
  ext bs
  rw [get?_serveAll_iff hclock, ← isLive_filter_iff]
  exact get?_serveAll_iff fun call hcall => hclock call (List.mem_filter.mp hcall).1

end MemoryCache

namespace CacheBackend

variable {m : MemoryCache} {now : Nat} {key : String} {live : List UInt8 → Prop}

/-- What the reads of a key answer if the bytes to be read are those that are live. -/
structure Answers (c : CacheBackend) (now : Nat) (key : String) (live : List UInt8 → Prop) :
    Prop where
  get_ok_iff : ∀ bs, (c.get now key).1 = .ok bs ↔ live bs
  get_error_iff : (c.get now key).1 = .error .keyNotFound ↔ ∀ bs, ¬ live bs
  tryGet_some_iff : ∀ bs, (c.tryGet now key).1 = .ok (some bs) ↔ live bs
  tryGet_none_iff : (c.tryGet now key).1 = .ok none ↔ ∀ bs, ¬ live bs
  contains_iff : ∀ found, (c.contains now key).1 = .ok found ↔ (found = true ↔ ∃ bs, live bs)

theorem answers_memory (h : ∀ bs, m.get? now key = some bs ↔ live bs) :
    (CacheBackend.memory m).Answers now key live := by
  have hnone : m.get? now key = none ↔ ∀ bs, ¬ live bs := by
    simp only [← h, Option.eq_none_iff_forall_ne_some, ne_eq]
  have hsome : (m.get? now key).isSome = true ↔ ∃ bs, live bs := by
    simp only [← h, Option.isSome_iff_exists]
  refine ⟨?_, ?_, ?_, ?_, ?_⟩
  · intro bs
    rw [← h]
    cases hread : m.get? now key <;> simp [get, hread]
  · rw [← hnone]
    cases hread : m.get? now key <;> simp [get, hread]
  · intro bs
    rw [← h]
    cases hread : m.get? now key <;> simp [tryGet, get, hread]
  · rw [← hnone]
    cases hread : m.get? now key <;> simp [tryGet, get, hread]
  · intro found
    rw [← hsome]
    cases hread : m.get? now key <;> cases found <;>
      simp [contains, tryGet, get, hread, Except.map]

theorem get_set_memory {later : Nat} (hlater : now ≤ later) (m : MemoryCache) (key : String)
    (bs : List UInt8) (lifetime : Nat) :
    ((CacheBackend.memory (m.set now key bs lifetime)).get later key).1 =
      if later - now < min lifetime m.maxLifetime then .ok bs else .error .keyNotFound := by
  rw [get, MemoryCache.get?_set, if_pos rfl]
  by_cases hlive : later - now < min lifetime m.maxLifetime
  · rw [if_pos hlive, if_pos (by omega)]
    rfl
  · rw [if_neg hlive, if_neg (by omega)]
    rfl

theorem serveAll_memory (m : MemoryCache) (calls : List (Nat × CacheRequest)) :
    (CacheBackend.memory m).serveAll calls = .memory (m.serveAll calls) := by
  induction calls generalizing m with
  | nil => rfl
  | cons call calls ih =>
      have hserve : (CacheBackend.memory m).serve call.1 call.2 =
          .memory (m.serve call.1 call.2).2 := by
        cases call.2 <;> rfl
      rw [serveAll, List.foldl_cons, hserve]
      exact ih _

end CacheBackend

end UserDirectory
