import Mathlib.Data.List.Perm.Subperm
import UserDirectory.Cache.Expiring
import UserDirectory.Proofs.Cache.Lifetime

namespace UserDirectory

def CacheEvent.request? : CacheEvent → Option CacheRequest
  | .request r => some r
  | .tidied _ => none

def requestsOf (events : List (Nat × CacheEvent)) : List (Nat × CacheRequest) :=
  events.filterMap fun e => e.2.request?.map (e.1, ·)

namespace ExpiringMap

/-- What a request leaves of the map under a cache; lifetimes are cut when bytes are written. -/
def serve (maxLifetime : Nat) (x : ExpiringMap TimedBytes) (now : Nat) :
    CacheRequest → ExpiringMap TimedBytes
  | .get key => (x.get TimedBytes.expiry now key).2
  | .set key bytes lifetime =>
    x.insert TimedBytes.expiry now key ⟨bytes, min lifetime maxLifetime⟩
  | .remove key => x.remove key

def after (maxLifetime : Nat) (x : ExpiringMap TimedBytes) (now : Nat) :
    CacheEvent → ExpiringMap TimedBytes
  | .request r => x.serve maxLifetime now r
  | .tidied key => x.tidy now key

def afterAll (maxLifetime : Nat) (x : ExpiringMap TimedBytes) (events : List (Nat × CacheEvent)) :
    ExpiringMap TimedBytes :=
  events.foldl (fun x e => x.after maxLifetime e.1 e.2) x

section Map

variable {α : Type}

theorem find?_keep (x : ExpiringMap α) (now : Nat) (key key' : String) (value : α)
    (time : Option Nat) :
    (x.keep now key value time).find? key' =
      if key' = key then some ⟨value, time.map (now + ·)⟩ else x.find? key' := by
  rw [find?, keep, Association.lookup_cons_filter_ne]
  rfl

theorem find?_remove (x : ExpiringMap α) (key key' : String) :
    (x.remove key).find? key' = if key' = key then none else x.find? key' := by
  rw [find?, remove, Association.lookup_filter_ne]
  rfl

theorem mem_of_find? {x : ExpiringMap α} {key : String} {e : Dated α}
    (h : x.find? key = some e) : key ∈ x.entries.map (·.1) := by
  by_contra hkey
  have hnone : x.entries.lookup key = none := by
    rw [List.lookup_eq_none_iff]
    intro p hp
    rw [bne_iff_ne]
    rintro rfl
    exact hkey (List.mem_map_of_mem hp)
  rw [find?, hnone] at h
  cases h

/-- A map that holds at most one entry under each of some keys, and none under others. -/
structure Within (keys : List String) (x : ExpiringMap α) : Prop where
  nodup : (x.entries.map (·.1)).Nodup
  subset : x.entries.map (·.1) ⊆ keys

theorem Within.length_le {keys : List String} {x : ExpiringMap α} (h : Within keys x) :
    x.entries.length ≤ keys.length := by
  rw [← List.length_map (·.1)]
  exact (List.subperm_of_subset h.nodup h.subset).length_le

theorem Within.remove {keys : List String} {x : ExpiringMap α} (h : Within keys x)
    (key : String) : Within keys (x.remove key) := by
  have hsub : ((x.remove key).entries.map (·.1)).Sublist (x.entries.map (·.1)) :=
    List.filter_sublist.map _
  exact ⟨hsub.nodup h.nodup, fun _ hmem => h.subset (hsub.subset hmem)⟩

theorem Within.keep {keys : List String} {x : ExpiringMap α} (h : Within keys x) {key : String}
    (hkey : key ∈ keys) (now : Nat) (value : α) (time : Option Nat) :
    Within keys (x.keep now key value time) := by
  have hrest := h.remove key
  have hnot : key ∉ (x.remove key).entries.map (·.1) := by
    intro hmem
    obtain ⟨e, he, heq⟩ := List.mem_map.mp hmem
    exact absurd heq (of_decide_eq_true (List.mem_filter.mp he).2)
  exact ⟨List.nodup_cons.mpr ⟨hnot, hrest.nodup⟩, List.cons_subset.mpr ⟨hkey, hrest.subset⟩⟩

end Map

theorem insert_eq (x : ExpiringMap TimedBytes) (now : Nat) (key : String) (e : TimedBytes) :
    x.insert TimedBytes.expiry now key e = x.keep now key e (some e.lifetime) := by
  rw [insert]
  cases x.find? key <;> rfl

variable {keys : List String} {x : ExpiringMap TimedBytes} {m : MemoryCache} {now later : Nat}

theorem Within.after (h : Within keys x) (maxLifetime now : Nat) {e : CacheEvent}
    (he : ∀ key bs lifetime, e = .request (.set key bs lifetime) → key ∈ keys) :
    Within keys (x.after maxLifetime now e) := by
  cases e with
  | tidied key =>
      rw [ExpiringMap.after, tidy]
      split
      · exact h.remove key
      · exact h
  | request r =>
      cases r with
      | get key =>
          rw [ExpiringMap.after, serve, ExpiringMap.get]
          cases hfind : x.find? key with
          | none => exact h
          | some e =>
              simp only
              split
              · exact h.keep (h.subset (mem_of_find? hfind)) _ _ _
              · exact h
      | set key bs lifetime => exact h.keep (he key bs lifetime rfl) _ _ _
      | remove key => exact h.remove key

theorem capacity_after (maxLifetime : Nat) (x : ExpiringMap TimedBytes) (now : Nat)
    (e : CacheEvent) : (x.after maxLifetime now e).capacity = x.capacity := by
  cases e with
  | tidied key =>
      rw [after, tidy]
      split <;> rfl
  | request r =>
      cases r with
      | get key =>
          rw [after, serve, ExpiringMap.get]
          cases x.find? key with
          | none => rfl
          | some e =>
              simp only
              split <;> rfl
      | set key bs lifetime => rfl
      | remove key => rfl

/-- A map that agrees with a cache which keeps all entries: what is in the map has the same bytes
and the same end there, and what is not in the map has expired there. -/
structure Tracks (m : MemoryCache) (x : ExpiringMap TimedBytes) (now : Nat) : Prop where
  found : ∀ {key e}, x.find? key = some e →
    ∃ e', m.entry? key = some e' ∧ e'.bytes = e.value.bytes ∧
      e.deadline = some (e'.written + e'.lifetime)
  missing : ∀ {key}, x.find? key = none → m.get? now key = none

theorem Tracks.get_eq (h : Tracks m x now) (key : String) :
    (x.get TimedBytes.expiry now key).1.map (·.bytes) = m.get? now key := by
  rw [ExpiringMap.get]
  cases hfind : x.find? key with
  | none => exact (h.missing hfind).symm
  | some e =>
      obtain ⟨e', hentry, hbytes, hdeadline⟩ := h.found hfind
      by_cases hlive : now < e'.written + e'.lifetime
      · simp [Dated.isLive, hdeadline, MemoryCache.get?, hentry, hlive, hbytes]
      · simp [Dated.isLive, hdeadline, MemoryCache.get?, hentry, hlive]

theorem Tracks.mono (h : Tracks m x now) (hle : now ≤ later) : Tracks m x later where
  found := h.found
  missing := by
    intro key hfind
    rcases hlater : m.get? later key with _ | bs
    · rfl
    · have hearlier := MemoryCache.get?_of_le hle hlater
      rw [h.missing hfind] at hearlier
      cases hearlier

theorem Tracks.tidy (h : Tracks m x now) (hcapacity : x.entries.length ≤ x.capacity)
    (key : String) : Tracks m (x.tidy now key) now := by
  rw [ExpiringMap.tidy]
  split
  · rename_i hdropped
    have hover : (x.find? key).all (!·.isLive now) = true :=
      hdropped.resolve_left (Nat.not_lt.mpr hcapacity)
    constructor
    · intro key' e hfind
      rw [find?_remove] at hfind
      split at hfind
      · cases hfind
      · exact h.found hfind
    · intro key' hfind
      by_cases hkey : key' = key
      · subst key'
        rw [← h.get_eq, ExpiringMap.get]
        cases hhere : x.find? key with
        | none => rfl
        | some e =>
            rw [hhere, Option.all_some, Bool.not_eq_true'] at hover
            simp [hover]
      · rw [find?_remove, if_neg hkey] at hfind
        exact h.missing hfind
  · exact h

theorem Tracks.find?_get (h : Tracks m x now) (key : String) :
    (x.get TimedBytes.expiry now key).2.find? = x.find? := by
  rw [ExpiringMap.get]
  cases hfind : x.find? key with
  | none => rfl
  | some e =>
      simp only
      split
      · rename_i hlive
        obtain ⟨e', -, -, hdeadline⟩ := h.found hfind
        rw [Dated.isLive, hdeadline, Option.all_some, decide_eq_true_eq] at hlive
        have hend : now + (e'.written + e'.lifetime - now) = e'.written + e'.lifetime := by
          omega
        have hkept : (x.keep now key e.value (e.left now)).find? = x.find? := by
          obtain ⟨value, deadline⟩ := e
          simp only at hdeadline
          funext key'
          rw [find?_keep]
          split
          · rename_i hkey
            subst hkey
            simp [hfind, Dated.left, hdeadline, hend]
          · rfl
        exact hkept
      · rfl

theorem Tracks.serve (h : Tracks m x now) (r : CacheRequest) :
    Tracks (m.serve now r).2 (x.serve m.maxLifetime now r) now := by
  cases r with
  | get key =>
      have hkept := h.find?_get key
      exact ⟨fun hthere => h.found (hkept ▸ hthere), fun hthere => h.missing (hkept ▸ hthere)⟩
  | set key bs lifetime =>
      rw [ExpiringMap.serve, insert_eq]
      constructor
      · intro key' e hfind
        rw [find?_keep] at hfind
        rw [MemoryCache.serve, MemoryCache.entry?_set]
        split at hfind
        · rename_i hkey
          obtain rfl := Option.some.inj hfind
          exact ⟨_, if_pos hkey, rfl, rfl⟩
        · rename_i hkey
          rw [if_neg hkey]
          exact h.found hfind
      · intro key' hfind
        rw [find?_keep] at hfind
        split at hfind
        · cases hfind
        · rename_i hkey
          rw [MemoryCache.serve, MemoryCache.get?_set, if_neg hkey]
          exact h.missing hfind
  | remove key =>
      constructor
      · intro key' e hfind
        rw [ExpiringMap.serve, find?_remove] at hfind
        rw [MemoryCache.serve, MemoryCache.entry?_remove]
        split at hfind
        · cases hfind
        · rename_i hkey
          rw [if_neg hkey]
          exact h.found hfind
      · intro key' hfind
        rw [ExpiringMap.serve, find?_remove] at hfind
        rw [MemoryCache.serve, MemoryCache.get?_remove]
        split
        · rfl
        · rename_i hkey
          rw [if_neg hkey] at hfind
          exact h.missing hfind

theorem Tracks.afterAll {events : List (Nat × CacheEvent)} (h : Tracks m x now)
    (hwithin : Within keys x) (hcapacity : keys.length ≤ x.capacity) (hle : now ≤ later)
    (hfrom : ∀ e ∈ events, now ≤ e.1) (hto : ∀ e ∈ events, e.1 ≤ later)
    (hsorted : (events.map (·.1)).Pairwise (· ≤ ·))
    (hwritten : ∀ e ∈ events, ∀ key bs lifetime, e.2 = .request (.set key bs lifetime) →
      key ∈ keys) :
    Tracks (m.serveAll (requestsOf events)) (x.afterAll m.maxLifetime events) later := by
  induction events generalizing m x now with
  | nil => exact h.mono hle
  | cons e events ih =>
      obtain ⟨time, event⟩ := e
      rw [List.forall_mem_cons] at hfrom hto hwritten
      rw [List.map_cons, List.pairwise_cons, List.forall_mem_map] at hsorted
      have hnow := h.mono hfrom.1
      have hwithin' := hwithin.after m.maxLifetime time hwritten.1
      have hcapacity' := x.capacity_after m.maxLifetime time event
      rw [← hcapacity'] at hcapacity
      cases event with
      | tidied key =>
          have htidied := hnow.tidy (Nat.le_trans hwithin.length_le (hcapacity' ▸ hcapacity)) key
          exact ih htidied hwithin' hcapacity hto.1 hsorted.1 hto.2 hsorted.2 hwritten.2
      | request r =>
          have hserved := hnow.serve r
          have hmax := m.maxLifetime_serve time r
          rw [← hmax] at hserved hwithin' hcapacity ⊢
          exact ih hserved hwithin' hcapacity hto.1 hsorted.1 hto.2 hsorted.2 hwritten.2

end ExpiringMap

namespace MemoryCache

/-- A cache after the requests among events. -/
def cacheAfter (m : MemoryCache) (events : List (Nat × CacheEvent)) : CacheBackend :=
  (CacheBackend.memory m).serveAll (requestsOf events)

/-- What is read after events, of which a cache `m` has served the requests, is what was written
last, as long as its lifetime is not over. -/
structure KeepsWrites (m : MemoryCache) (maxLifetime capacity : Nat)
    (events : List (Nat × CacheEvent)) (now : Nat) : Prop where
  answers : ∀ key,
    (cacheAfter m events).Answers now key (IsLive maxLifetime (requestsOf events) now key)
  /-- So it is over a map whose entries expire, however that is tidied. -/
  expiring : ∀ key bs,
    ((ExpiringMap.afterAll m.maxLifetime { capacity } events).get TimedBytes.expiry now key).1.map
      (·.bytes) = some bs ↔ IsLive maxLifetime (requestsOf events) now key bs
  /-- A write begins a new lifetime, whatever time the overwritten bytes have left. -/
  restarts : ∀ key bs lifetime later, now ≤ later →
    ∃ c, (cacheAfter m events).set now key bs lifetime = (.ok (), c) ∧
      (c.get later key).1 =
        if later - now < min lifetime maxLifetime then .ok bs else .error .keyNotFound
  /-- Reads change nothing, so that they extend no lifetime. -/
  unread : ∀ key, ((cacheAfter m events).get now key).2 = cacheAfter m events ∧
    ((cacheAfter m events).tryGet now key).2 = cacheAfter m events ∧
    ((cacheAfter m events).contains now key).2 = cacheAfter m events
  /-- Calls for other keys, and reads, make no difference to what is read under a key. -/
  unaffected : ∀ key,
    (((CacheBackend.memory m).serveAll ((requestsOf events).filter fun call =>
      call.2.key = key ∧ call.2 ≠ .get key)).get now key).1 = ((cacheAfter m events).get now key).1

theorem mem_requestsOf {events : List (Nat × CacheEvent)} {call : Nat × CacheRequest} :
    call ∈ requestsOf events ↔ (call.1, .request call.2) ∈ events := by
  obtain ⟨time, r⟩ := call
  rw [requestsOf, List.mem_filterMap]
  constructor
  · rintro ⟨⟨time', _ | _⟩, he, h⟩ <;> cases h
    exact he
  · intro he
    exact ⟨_, he, rfl⟩

theorem keeps_writes (config : MemoryConfig) (ticks : Nat) {events : List (Nat × CacheEvent)}
    {now : Nat} (hclock : (events.map (·.1) ++ [now]).Pairwise (· ≤ ·)) {keys : List String}
    (hcapacity : keys.length ≤ config.capacity)
    (hwritten : ∀ e ∈ events, ∀ key bs lifetime, e.2 = .request (.set key bs lifetime) →
      key ∈ keys) :
    KeepsWrites (ofConfigAt ticks config) (config.ttlSecs * ticks) config.capacity events now := by
  obtain ⟨hsorted, -, hlast⟩ := List.pairwise_append.mp hclock
  have hto : ∀ e ∈ events, e.1 ≤ now := fun e he =>
    hlast e.1 (List.mem_map_of_mem he) now List.mem_cons_self
  have hcalls : ∀ call ∈ requestsOf events, call.1 ≤ now := fun call hcall =>
    hto _ (mem_requestsOf.mp hcall)
  rw [ofConfigAt]
  generalize config.ttlSecs * ticks = maxLifetime
  have hread : ∀ key bs,
      MemoryCache.get? (serveAll { maxLifetime } (requestsOf events)) now key = some bs ↔
        IsLive maxLifetime (requestsOf events) now key bs :=
    fun _ _ => get?_serveAll_iff hcalls
  have hcache : cacheAfter { maxLifetime } events =
      .memory (serveAll { maxLifetime } (requestsOf events)) :=
    CacheBackend.serveAll_memory _ _
  constructor
  · intro key
    rw [hcache]
    exact CacheBackend.answers_memory (hread key)
  · intro key bs
    have hempty : ExpiringMap.Tracks { maxLifetime } { capacity := config.capacity } 0 :=
      ⟨nofun, fun _ => rfl⟩
    have htracks := hempty.afterAll ⟨List.nodup_nil, List.nil_subset keys⟩ hcapacity
      (Nat.zero_le now) (fun e _ => Nat.zero_le e.1) hto hsorted hwritten
    rw [htracks.get_eq]
    exact hread key bs
  · intro key bs lifetime later hlater
    have hmax : (serveAll { maxLifetime } (requestsOf events)).maxLifetime = maxLifetime :=
      maxLifetime_serveAll _ _
    refine ⟨_, by rw [hcache]; rfl, ?_⟩
    rw [CacheBackend.get_set_memory hlater, hmax]
  · intro key
    have hget : ((cacheAfter { maxLifetime } events).get now key).2 =
        cacheAfter { maxLifetime } events := by
      rw [hcache]
      rfl
    have htryGet := (cacheAfter { maxLifetime } events).tryGet_snd now key
    exact ⟨hget, htryGet.trans hget, htryGet.trans hget⟩
  · intro key
    rw [hcache, CacheBackend.serveAll_memory, CacheBackend.get, CacheBackend.get,
      get?_serveAll_filter hcalls]

/-- Bytes that were to be kept for a second are overwritten by others that are kept for less, after
an entry under another key was dropped whose time was over. -/
theorem keeps_writes_of_shorter_lifetime :
    let config : MemoryConfig := ⟨2, 1⟩
    let events : List (Nat × CacheEvent) :=
      [(0, .request (.set "a" [1] 5000)), (0, .request (.set "b" [2] 300)), (400, .tidied "b"),
        (500, .request (.get "a")), (500, .request (.set "a" [3] 200))]
    (events.map Prod.fst ++ [699]).Pairwise (· ≤ ·) ∧ ["a", "b"].length ≤ config.capacity ∧
      (∀ e ∈ events, ∀ key bs lifetime, e.2 = .request (.set key bs lifetime) → key ∈ ["a", "b"]) ∧
      ((cacheAfter (ofConfig config) events).get 699 "a").1 = .ok [3] ∧
      ((cacheAfter (ofConfig config) events).get 700 "a").1 = .error .keyNotFound ∧
      ((cacheAfter (ofConfig config) events).get 699 "b").1 = .error .keyNotFound ∧
      KeepsWrites (ofConfig config) (config.ttlSecs * 1000) config.capacity events 699 := by
  intro config events
  have hclock : (events.map Prod.fst ++ [699]).Pairwise (· ≤ ·) := by decide
  have hcapacity : ["a", "b"].length ≤ config.capacity := by decide
  have hwritten : ∀ e ∈ events, ∀ key bs lifetime, e.2 = .request (.set key bs lifetime) →
      key ∈ ["a", "b"] := by
    intro e he key bs lifetime hset
    simp only [events, List.mem_cons, List.not_mem_nil, or_false] at he
    rcases he with rfl | rfl | rfl | rfl | rfl <;> cases hset <;> decide
  exact ⟨hclock, hcapacity, hwritten, by decide, by decide, by decide,
    keeps_writes config 1000 hclock hcapacity hwritten⟩

end MemoryCache

end UserDirectory
