import UserDirectory.Cached.Request
import UserDirectory.Proofs.Association

namespace UserDirectory.MemoryCache

variable {c : MemoryCache} {now : Nat} {key key' : String}

theorem entry?_set (c : MemoryCache) (now : Nat) (key key' : String) (bytes : List UInt8)
    (lifetime : Nat) :
    MemoryCache.entry? (c.set now key bytes lifetime) key' =
      if key' = key then some ⟨bytes, now, min lifetime c.maxLifetime⟩ else c.entry? key' := by
  rw [set, entry?, Association.lookup_cons_filter_ne]
  rfl

theorem entry?_remove (c : MemoryCache) (key key' : String) :
    MemoryCache.entry? (c.remove key) key' = if key' = key then none else c.entry? key' := by
  rw [remove, entry?, Association.lookup_filter_ne]
  rfl

theorem entry?_of_get? {bs : List UInt8} (h : c.get? now key = some bs) :
    ∃ e, c.entry? key = some e ∧ e.bytes = bs ∧ now < e.written + e.lifetime := by
  rw [get?] at h
  split at h
  · rename_i e he
    split at h
    · rename_i hlt
      cases h
      exact ⟨e, he, rfl, hlt⟩
    · cases h
  · cases h

theorem get?_of_entry? {e : CacheEntry} (he : c.entry? key = some e)
    (hlt : now < e.written + e.lifetime) : c.get? now key = some e.bytes := by
  simp only [get?, he, if_pos hlt]

theorem get?_set (c : MemoryCache) (now n : Nat) (key key' : String) (bytes : List UInt8)
    (lifetime : Nat) : MemoryCache.get? (c.set now key bytes lifetime) n key' =
      if key' = key then (if n < now + min lifetime c.maxLifetime then some bytes else none)
      else c.get? n key' := by
  by_cases hkey : key' = key
  · simp only [get?, entry?_set, if_pos hkey]
  · simp only [get?, entry?_set, if_neg hkey]

theorem get?_remove (c : MemoryCache) (n : Nat) (key key' : String) :
    MemoryCache.get? (c.remove key) n key' = if key' = key then none else c.get? n key' := by
  by_cases hkey : key' = key
  · simp only [get?, entry?_remove, if_pos hkey]
  · simp only [get?, entry?_remove, if_neg hkey]

theorem get?_of_le {n n' : Nat} {bs : List UInt8} (hle : n ≤ n') (h : c.get? n' key = some bs) :
    c.get? n key = some bs := by
  obtain ⟨e, he, rfl, hlt⟩ := entry?_of_get? h
  exact get?_of_entry? he (Nat.lt_of_le_of_lt hle hlt)

theorem get?_eq_between {n n' : Nat} (h₁ : now ≤ n) (h₂ : n ≤ n')
    (h : c.get? n' key = c.get? now key) : c.get? n' key = c.get? n key := by
  rcases hlive : c.get? n key with _ | bs
  · rcases hlater : c.get? n' key with _ | bs
    · rfl
    · rw [get?_of_le h₂ hlater] at hlive
      cases hlive
  · rw [h, get?_of_le h₁ hlive]

theorem maxLifetime_serve (m : MemoryCache) (now : Nat) (r : CacheRequest) :
    (m.serve now r).2.maxLifetime = m.maxLifetime := by
  cases r <;> rfl

end UserDirectory.MemoryCache
