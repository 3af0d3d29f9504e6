import UserDirectory.Cache.Typed
import UserDirectory.Cached.Request
import UserDirectory.Proofs.Cache.Memory

namespace UserDirectory

/-- Whether a request leaves what is kept under a key. -/
def CacheRequest.Spares (key : String) (r : CacheRequest) : Prop := r.key = key → r = .get key

inductive CacheEvent
  | request (r : CacheRequest)
  /-- The entry under a key is dropped if it need not be kept. -/
  | tidied (key : String)
  deriving DecidableEq

namespace CacheBackend

def serve (c : CacheBackend) (now : Nat) : CacheRequest → CacheBackend
  | .get key => (c.get now key).2
  | .set key bytes lifetime => (c.set now key bytes lifetime).2
  | .remove key => (c.remove key).2

def serveAll (c : CacheBackend) (rs : List (Nat × CacheRequest)) : CacheBackend :=
  rs.foldl (fun c r => c.serve r.1 r.2) c

/-- A server drops an entry by itself. A cache in memory reads none whose time is over, so that it
makes no difference when they are dropped there. -/
def after (c : CacheBackend) (now : Nat) : CacheEvent → CacheBackend
  | .request r => c.serve now r
  | .tidied key =>
    match c with
    | .memory m => .memory m
    | .redis r => .redis { r with entries := r.entries.filter fun (k, _) => k ≠ key }

def afterAll (c : CacheBackend) (events : List (Nat × CacheEvent)) : CacheBackend :=
  events.foldl (fun c e => c.after e.1 e.2) c

def isServer : CacheBackend → Bool
  | .memory _ => false
  | .redis _ => true

/-- A cache that answers: a server must be reachable and refuse no command. -/
def IsFaultFree : CacheBackend → Prop
  | .memory _ => True
  | .redis r =>
    r.refusals = [] ∧ r.isClosed = false ∧ (r.isConnected = true ∨ r.unreachable = none)

/-- When an entry expires that is written now. A server counts whole seconds, at least one. -/
def expiry (c : CacheBackend) (now lifetime : Nat) : Nat :=
  match c with
  | .memory m => now + min lifetime m.maxLifetime
  | .redis _ => now + max (lifetime / 1000) 1 * 1000

/-- The bytes under a key and when they expire; a server drops what has expired. -/
def kept? (c : CacheBackend) (key : String) : Option (List UInt8 × Option Nat) :=
  match c with
  | .memory m => (m.entry? key).map fun e => (e.bytes, some (e.written + e.lifetime))
  | .redis r => (r.entries.lookup key).map fun bs => (bs, none)

/-- The bytes under a key that have not expired. -/
def live? (c : CacheBackend) (now : Nat) (key : String) : Option (List UInt8) :=
  (c.kept? key).bind fun e => if e.2.all (now < ·) then some e.1 else none

end CacheBackend

namespace RedisCache

open CacheBackend (IsFaultFree)

theorem connect_cases (r : RedisCache) :
    (∃ reason, r.connect = .error (.connection reason)) ∨
      ∃ r', r.connect = .ok r' ∧ r'.entries = r.entries := by
  rw [connect]
  split
  · exact .inl ⟨_, rfl⟩
  · split
    · exact .inr ⟨r, rfl, rfl⟩
    · split
      · exact .inl ⟨_, rfl⟩
      · exact .inr ⟨_, rfl, rfl⟩

theorem send_cases (r : RedisCache) (command : List String) :
    ∃ r', r'.entries = r.entries ∧
      (r.send command = (.ok (), r') ∨
        ∃ reason, r.send command = (.error (.connection reason), r') ∨
          r.send command = (.error (.backend reason), r')) := by
  obtain ⟨reason, hconnect⟩ | ⟨r', hconnect, hentries⟩ := r.connect_cases
  · exact ⟨r, rfl, .inr ⟨reason, .inl (by simp only [send, hconnect])⟩⟩
  · cases hrefusals : r'.refusals with
    | nil =>
        refine ⟨{ r' with commands := command :: r'.commands }, hentries, .inl ?_⟩
        simp only [send, hconnect, hrefusals]
    | cons reply rest =>
        refine ⟨{ r' with commands := command :: r'.commands, refusals := rest }, hentries,
          .inr ⟨refusalMessage reply, .inr ?_⟩⟩
        simp only [send, hconnect, hrefusals]

variable {r : RedisCache}

theorem connect_of_isFaultFree (h : IsFaultFree (.redis r)) :
    ∃ r', r.connect = .ok r' ∧ r'.entries = r.entries ∧ IsFaultFree (.redis r') := by
  obtain ⟨hrefusals, hclosed, hconnected⟩ := h
  rw [connect]
  by_cases hc : r.isConnected = true
  · exact ⟨r, by simp [hclosed, hc], rfl, hrefusals, hclosed, hconnected⟩
  · have hreach := hconnected.resolve_left hc
    refine ⟨{ r with
      isConnected := true
      commands := if r.db = 0 then r.commands else ["SELECT", toString r.db] :: r.commands },
      ?_, rfl, hrefusals, hclosed, .inl rfl⟩
    simp [hclosed, hc, hreach]

theorem send_of_isFaultFree (h : IsFaultFree (.redis r)) (command : List String) :
    ∃ r', r.send command = (.ok (), r') ∧ r'.entries = r.entries ∧ IsFaultFree (.redis r') := by
  obtain ⟨r', hconnect, hentries, hfree⟩ := connect_of_isFaultFree h
  refine ⟨{ r' with commands := command :: r'.commands }, ?_, hentries, hfree⟩
  simp [send, hconnect, hfree.1]

end RedisCache

namespace CacheBackend

variable {c : CacheBackend} {now : Nat} {key : String} {events : List (Nat × CacheEvent)}

theorem tryGet_snd (c : CacheBackend) (now : Nat) (key : String) :
    (c.tryGet now key).2 = (c.get now key).2 := by
  rw [tryGet]
  split <;> rename_i hget <;> rw [hget]

theorem get?_eq_live? (m : MemoryCache) (now : Nat) (key : String) :
    m.get? now key = (CacheBackend.memory m).live? now key := by
  rcases hentry : m.entry? key with _ | e
  · simp [MemoryCache.get?, live?, kept?, hentry]
  · by_cases hlive : now < e.written + e.lifetime
    · simp [MemoryCache.get?, live?, kept?, hentry, hlive]
    · simp [MemoryCache.get?, live?, kept?, hentry, hlive]

theorem kept?_serve_cases (c : CacheBackend) (now : Nat) (r : CacheRequest) (key : String) :
    (c.serve now r).kept? key = c.kept? key ∨
      (r = .remove key ∧ (c.serve now r).kept? key = none) ∨
        ∃ bs lifetime, r = .set key bs lifetime ∧
          ((c.serve now r).kept? key).map (·.1) = some bs := by
  cases c with
  | memory m =>
      cases r with
      | get key' => exact .inl rfl
      | set key' bs lifetime =>
          by_cases hkey : key = key'
          · refine .inr (.inr ⟨bs, lifetime, by rw [hkey], ?_⟩)
            simp only [serve, set, kept?, MemoryCache.entry?_set, if_pos hkey, Option.map_some]
          · refine .inl ?_
            simp only [serve, set, kept?, MemoryCache.entry?_set, if_neg hkey]
      | remove key' =>
          by_cases hkey : key = key'
          · refine .inr (.inl ⟨by rw [hkey], ?_⟩)
            simp only [serve, remove, kept?, MemoryCache.entry?_remove, if_pos hkey,
              Option.map_none]
          · refine .inl ?_
            simp only [serve, remove, kept?, MemoryCache.entry?_remove, if_neg hkey]
  | redis s =>
      cases r with
      | get key' =>
          refine .inl ?_
          obtain ⟨s', hentries, hsend | ⟨_, hsend | hsend⟩⟩ := s.send_cases ["GET", key'] <;>
            simp only [serve, get, RedisCache.get, hsend, kept?, hentries]
      | set key' bs lifetime =>
          obtain ⟨s', hentries, hsend | ⟨_, hsend | hsend⟩⟩ := s.send_cases
            ["SETEX", key', toString (max (lifetime / 1000) 1), RedisCache.shown bs]
          · by_cases hkey : key = key'
            · refine .inr (.inr ⟨bs, lifetime, by rw [hkey], ?_⟩)
              simp only [serve, set, RedisCache.set, hsend, kept?,
                Association.lookup_cons_filter_ne, if_pos hkey, Option.map_some]
            · refine .inl ?_
              simp only [serve, set, RedisCache.set, hsend, kept?, hentries,
                Association.lookup_cons_filter_ne, if_neg hkey]
          all_goals exact .inl (by simp only [serve, set, RedisCache.set, hsend, kept?, hentries])
      | remove key' =>
          obtain ⟨s', hentries, hsend | ⟨_, hsend | hsend⟩⟩ := s.send_cases ["DEL", key']
          · by_cases hkey : key = key'
            · refine .inr (.inl ⟨by rw [hkey], ?_⟩)
              simp only [serve, remove, RedisCache.remove, hsend, kept?,
                Association.lookup_filter_ne, if_pos hkey, Option.map_none]
            · refine .inl ?_
              simp only [serve, remove, RedisCache.remove, hsend, kept?, hentries,
                Association.lookup_filter_ne, if_neg hkey]
          all_goals
            exact .inl (by simp only [serve, remove, RedisCache.remove, hsend, kept?, hentries])

theorem kept?_serve_of_spares {r : CacheRequest} {key : String} (h : r.Spares key)
    (c : CacheBackend) (now : Nat) : (c.serve now r).kept? key = c.kept? key := by
  rcases c.kept?_serve_cases now r key with hsame | ⟨rfl, -⟩ | ⟨_, _, rfl, -⟩
  · exact hsame
  · exact nomatch h rfl
  · exact nomatch h rfl

theorem get_cases (c : CacheBackend) (now : Nat) (key : String) :
    (c.get now key).1 = (c.live? now key).elim (.error .keyNotFound) .ok ∨
      ∃ reason, (c.get now key).1 = .error (.connection reason) ∨
        (c.get now key).1 = .error (.backend reason) := by
  cases c with
  | memory m => exact .inl (by rw [get, get?_eq_live?])
  | redis r =>
      obtain ⟨r', hentries, hsend | ⟨reason, hsend | hsend⟩⟩ := r.send_cases ["GET", key]
      · refine .inl ?_
        cases hentry : r.entries.lookup key <;>
          simp [get, RedisCache.get, hsend, live?, kept?, hentries, hentry]
      · exact .inr ⟨reason, .inl (by simp only [get, RedisCache.get, hsend])⟩
      · exact .inr ⟨reason, .inr (by simp only [get, RedisCache.get, hsend])⟩

theorem tryGet_cases (c : CacheBackend) (now : Nat) (key : String) :
    (c.tryGet now key).1 = .ok (c.live? now key) ∨
      ∃ reason, (c.tryGet now key).1 = .error (.connection reason) ∨
        (c.tryGet now key).1 = .error (.backend reason) := by
  rcases hanswer : c.get now key with ⟨answer, c'⟩
  have hcases := c.get_cases now key
  rw [hanswer] at hcases
  rcases hcases with rfl | ⟨reason, rfl | rfl⟩
  · refine .inl ?_
    cases hlive : c.live? now key <;> simp [tryGet, hanswer, hlive]
  · exact .inr ⟨reason, .inl (by simp only [tryGet, hanswer])⟩
  · exact .inr ⟨reason, .inr (by simp only [tryGet, hanswer])⟩

theorem IsFaultFree.after (h : c.IsFaultFree) (now : Nat) (e : CacheEvent) :
    (c.after now e).IsFaultFree := by
  cases c with
  | memory m =>
      cases e with
      | request r => cases r <;> exact trivial
      | tidied key => exact trivial
  | redis s =>
      cases e with
      | request r =>
          cases r with
          | get key =>
              obtain ⟨s', hsend, -, hfree⟩ := RedisCache.send_of_isFaultFree h ["GET", key]
              simp only [CacheBackend.after, serve, get, RedisCache.get, hsend]
              exact hfree
          | set key bs lifetime =>
              obtain ⟨s', hsend, -, hfree⟩ := RedisCache.send_of_isFaultFree h
                ["SETEX", key, toString (max (lifetime / 1000) 1), RedisCache.shown bs]
              simp only [CacheBackend.after, serve, set, RedisCache.set, hsend]
              exact hfree
          | remove key =>
              obtain ⟨s', hsend, -, hfree⟩ := RedisCache.send_of_isFaultFree h ["DEL", key]
              simp only [CacheBackend.after, serve, remove, RedisCache.remove, hsend]
              exact hfree
      | tidied key => exact h

theorem IsFaultFree.afterAll (h : c.IsFaultFree) (events : List (Nat × CacheEvent)) :
    (c.afterAll events).IsFaultFree := by
  induction events generalizing c with
  | nil => exact h
  | cons e events ih => exact ih (h.after e.1 e.2)

theorem tryGet_of_isFaultFree (h : c.IsFaultFree) (now : Nat) (key : String) :
    (c.tryGet now key).1 = .ok (c.live? now key) := by
  cases c with
  | memory m =>
      rw [tryGet, get, get?_eq_live?]
      cases (CacheBackend.memory m).live? now key <;> rfl
  | redis r =>
      obtain ⟨r', hsend, hentries, -⟩ := RedisCache.send_of_isFaultFree h ["GET", key]
      cases hentry : r.entries.lookup key <;>
        simp [tryGet, get, RedisCache.get, hsend, live?, kept?, hentries, hentry]

theorem isServer_after (c : CacheBackend) (now : Nat) (e : CacheEvent) :
    (c.after now e).isServer = c.isServer := by
  cases c with
  | memory m =>
      cases e with
      | request r => cases r <;> rfl
      | tidied key => rfl
  | redis s =>
      cases e with
      | request r => cases r <;> rfl
      | tidied key => rfl

theorem kept?_after {e : CacheEvent} (he : ∀ r, e = .request r → r.Spares key)
    (c : CacheBackend) (now : Nat) : (c.after now e).kept? key =
      if c.isServer ∧ e = .tidied key then none else c.kept? key := by
  cases e with
  | request r =>
      rw [if_neg (by simp)]
      exact kept?_serve_of_spares (he r rfl) c now
  | tidied key' =>
      cases c with
      | memory m => exact (if_neg (by simp [isServer])).symm
      | redis s =>
          simp only [CacheBackend.after, kept?, Association.lookup_filter_ne, isServer, true_and,
            CacheEvent.tidied.injEq, eq_comm (a := key)]
          split <;> rfl

theorem kept?_afterAll (hevents : ∀ e ∈ events, ∀ r, e.2 = .request r → r.Spares key)
    (c : CacheBackend) : (c.afterAll events).kept? key =
      if c.isServer ∧ ∃ e ∈ events, e.2 = .tidied key then none else c.kept? key := by
  induction events generalizing c with
  | nil => simp [afterAll]
  | cons e events ih =>
      rw [List.forall_mem_cons] at hevents
      have hrest := ih hevents.2 (c.after e.1 e.2)
      rw [isServer_after, kept?_after hevents.1] at hrest
      rw [afterAll, List.foldl_cons, ← afterAll, hrest]
      simp only [List.exists_mem_cons_iff]
      by_cases hserver : c.isServer = true
      · by_cases hhead : e.2 = .tidied key
        · simp only [hserver, hhead, true_and, true_or, if_true, ite_self]
        · simp only [hserver, hhead, true_and, false_or, if_false]
      · simp [hserver]

theorem kept?_set (h : c.IsFaultFree) (now : Nat) (key : String) (bs : List UInt8)
    (lifetime : Nat) :
    (c.set now key bs lifetime).1 = .ok () ∧ (c.set now key bs lifetime).2.kept? key =
      some (bs, if c.isServer then none else some (c.expiry now lifetime)) := by
  cases c with
  | memory m =>
      refine ⟨rfl, ?_⟩
      rw [set, kept?, MemoryCache.entry?_set, if_pos rfl]
      rfl
  | redis r =>
      obtain ⟨r', hsend, hentries, hfree⟩ := RedisCache.send_of_isFaultFree h
        ["SETEX", key, toString (max (lifetime / 1000) 1), RedisCache.shown bs]
      simp only [set, RedisCache.set, hsend, kept?, Association.lookup_cons_filter_ne, isServer,
        if_true, Option.map_some, and_self]

end CacheBackend

/-- Whether an event leaves what is kept under a key: a request for the key only reads, and a server
drops the key only when its time is over, and before it is looked for at a time. -/
def CacheEvent.Leaves (key : String) (expiry later : Nat) : Nat × CacheEvent → Prop
  | (_, .request r) => r.Spares key
  | (now, .tidied key') => key' = key → expiry ≤ now ∧ now ≤ later

/-- What is written stays until it expires. Then a server may still be slow to drop it. -/
theorem CacheBackend.live?_set {c : CacheBackend} {now lifetime later : Nat} {key : String}
    {events : List (Nat × CacheEvent)} (h : c.IsFaultFree)
    (hevents : ∀ e ∈ events, CacheEvent.Leaves key (c.expiry now lifetime) later e)
    (bs : List UInt8) :
    ((c.set now key bs lifetime).2.afterAll events).live? later key =
      if later < c.expiry now lifetime ∨ c.isServer ∧ ∀ e ∈ events, e.2 ≠ .tidied key then some bs
      else none := by
  have hspares : ∀ e ∈ events, ∀ r, e.2 = .request r → r.Spares key := by
    rintro ⟨time, _⟩ he r rfl
    exact hevents _ he
  have hlate : (∃ e ∈ events, e.2 = .tidied key) → c.expiry now lifetime ≤ later := by
    rintro ⟨⟨time, _⟩, he, rfl⟩
    obtain ⟨hdue, hbefore⟩ := hevents _ he rfl
    exact Nat.le_trans hdue hbefore
  have hserver : (c.set now key bs lifetime).2.isServer = c.isServer :=
    c.isServer_after now (.request (.set key bs lifetime))
  rw [live?, kept?_afterAll hspares, (kept?_set h now key bs lifetime).2, hserver]
  by_cases hs : c.isServer = true
  · by_cases hdropped : ∃ e ∈ events, e.2 = .tidied key
    · have hover : ¬ later < c.expiry now lifetime := Nat.not_lt.mpr (hlate hdropped)
      rw [if_pos ⟨hs, hdropped⟩, if_neg]
      · rfl
      · rintro (hlive | ⟨-, hkept⟩)
        · exact hover hlive
        · obtain ⟨e, he, heq⟩ := hdropped
          exact hkept e he heq
    · rw [if_neg fun h => hdropped h.2, if_pos hs, if_pos]
      · rfl
      · exact .inr ⟨hs, fun e he heq => hdropped ⟨e, he, heq⟩⟩
  · simp [hs]

namespace CacheSlot

variable {α : Type}

/-- A handle that reads back what it wrote until that expires, whatever is asked of the cache for
other keys in between. From then on it finds nothing, except on a server that is slow to drop it. -/
structure ReadsBack (s : CacheSlot α) (c : CacheBackend) (now : Nat) (a : α) (lifetime : Nat) :
    Prop where
  set_ok : (s.set c now a lifetime).1 = .ok ()
  tryGet_eq : ∀ (events : List (Nat × CacheEvent)) (later : Nat),
    (∀ e ∈ events, CacheEvent.Leaves s.key (c.expiry now lifetime) later e) →
      (s.tryGet ((s.set c now a lifetime).2.afterAll events) later).1 =
        .ok (if later < c.expiry now lifetime ∨ c.isServer ∧ ∀ e ∈ events, e.2 ≠ .tidied s.key
          then some a else none)

theorem readsBack {s : CacheSlot α} {c : CacheBackend} (h : c.IsFaultFree) {a : α}
    (ha : s.codec.ofEntry (s.codec.toBytes a) = .ok a) (now lifetime : Nat) :
    s.ReadsBack c now a lifetime := by
  refine ⟨(CacheBackend.kept?_set h now s.key _ lifetime).1, fun events later hevents => ?_⟩
  have hfree : (s.set c now a lifetime).2.IsFaultFree :=
    h.after now (.request (.set s.key (s.codec.toBytes a) lifetime))
  have hlive := CacheBackend.live?_set h hevents (s.codec.toBytes a)
  have hread := CacheBackend.tryGet_of_isFaultFree (hfree.afterAll events) later s.key
  rw [set] at hread ⊢
  rw [hlive] at hread
  rcases hanswer : ((c.set now s.key (s.codec.toBytes a) lifetime).2.afterAll events).tryGet later
    s.key with ⟨answer, c'⟩
  rw [hanswer] at hread
  obtain rfl := hread
  rw [tryGet, hanswer]
  by_cases hthere : later < c.expiry now lifetime ∨
      c.isServer ∧ ∀ e ∈ events, e.2 ≠ .tidied s.key
  · simp only [if_pos hthere, ha]
    rfl
  · simp only [if_neg hthere]

end CacheSlot

end UserDirectory
