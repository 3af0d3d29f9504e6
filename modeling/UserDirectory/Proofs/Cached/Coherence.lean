import UserDirectory.Proofs.Cached.Clock
import UserDirectory.Proofs.Cached.WriteBack
import UserDirectory.Proofs.Directory.Writes
import UserDirectory.Proofs.User.Json

/-!
The cache agrees with the store. Everything that is in the cache of a user, or on its way there,
was saved; and once an invalidation has taken its tick, nothing that it has replaced will be
written any more.
-/

namespace UserDirectory

open UserDirectory.Json

/-- Whether the store bears out the answer that a task has got for a save or a deletion. -/
def Process.Confirmed (d : Directory) (p : Process) : Prop :=
  match p.stage, p.standing with
  | .save _ _, .replied (.store (.ok (.user v))) => d.Confirms v.id (.user v)
  | .delete id _, .replied (.store (.ok a)) => d.Confirms id a
  | .awaitDrop id _ a, _ => d.Confirms id a
  | .dropEntry id _ a, _ => d.Confirms id a
  | _, _ => True

theorem Process.Confirmed.mono {d d' : Directory} {p : Process} (h : p.Confirmed d)
    (he : d.Extends d') : p.Confirmed d' := by
  rw [Process.Confirmed] at h ⊢
  split at h
  · exact h.mono he
  · exact h.mono he
  · exact h.mono he
  · exact h.mono he
  · trivial

theorem Process.confirmed_served {w : Wiring} {mint : Mint} {d : Directory} {st : Stage}
    {q : StoreRequest} (hd : d.Sound mint) (hq : st.request w = .store q)
    (hm : mint.Fresh (d.serve mint q).2.drawn) :
    Process.Confirmed (d.serve mint q).2 ⟨st, .replied (.store (d.serve mint q).1)⟩ := by
  rw [Process.Confirmed]
  split
  · rename_i v hst hsd
    subst hst
    cases hq
    obtain ⟨v', ha, -, hc⟩ := Directory.serve_save_ok hd hm (by simpa using hsd)
    cases ha
    refine ⟨rfl, ?_⟩
    rw [Directory.history_append hc]
    exact List.mem_append_right _ (List.mem_singleton_self v)
  · rename_i a hst hsd
    subst hst
    cases hq
    obtain ⟨i, rfl, rfl, hdeleted, hc⟩ := Directory.serve_delete_ok hd (by simpa using hsd)
    exact hc.isDeleted hdeleted
  · rename_i hst
    subst hst
    cases hq
  · rename_i hst
    subst hst
    cases hq
  · trivial

namespace System

variable {w : Wiring} {mint : Mint} {s s' : System} {es : List Event} {t : TaskId}
  {S : User → Prop} {id : Uuid}

/-- The guard under which users that are not to be seen any more are not written: they wait since
before the fence was stamped. -/
def guard (s : System) (S : User → Prop) : Guard where
  pending u n := S u → n < (s.fences.fence u.id).stamp
  writing u := ¬ S u

/-- None of some users will be written to the cache any more. -/
def Fenced (s : System) (S : User → Prop) : Prop := s.Obeys (s.guard S)

def saved (d : Directory) : Guard where
  pending u _ := u ∈ d.history u.id
  writing u := u ∈ d.history u.id

structure Coherent (w : Wiring) (mint : Mint) (s : System) : Prop where
  orderly : Orderly w s
  sound : s.store.Sound mint
  carried : s.Obeys (saved s.store)
  confirmed : ∀ t p, s.tasks t = some p → p.Confirmed s.store
  entries : ∀ id e, s.cache.entry? (CacheKey.user id) = some e →
    ∃ u ∈ s.store.history id, User.codec.ofEntry e.bytes = .ok u
  /-- A task that drops an entry has fenced off what its answer supersedes, and once it has
  dropped it the entry is gone. -/
  dropping : ∀ t id emails a sd, s.tasks t = some ⟨.dropEntry id emails a, sd⟩ →
    s.Fenced (s.store.Superseded id a) ∧
      ∀ x, sd = .replied (.cache (.ok x)) → s.cache.entry? (CacheKey.user id) = none

theorem Coherent.mem_history (h : Coherent w mint s) {e : CacheEntry} {u : User}
    (he : s.cache.entry? (CacheKey.user id) = some e) (hu : User.codec.ofEntry e.bytes = .ok u) :
    u ∈ s.store.history id := by
  obtain ⟨v, hv, hread⟩ := h.entries id e he
  rw [hread] at hu
  cases hu
  exact hv

theorem Fenced.or {S' S'' : User → Prop} (h : s.Fenced S) (h' : s.Fenced S')
    (himp : ∀ u, S'' u → S u ∨ S' u) : s.Fenced S'' := by
  intro t p hp
  refine (h t p hp).and (h' t p hp) ?_ ?_
  · intro u n hn hn' hu
    exact (himp u hu).elim hn hn'
  · intro u hw hw' hu
    exact (himp u hu).elim hw hw'

theorem Fenced.of_imp {S' : User → Prop} (h : s.Fenced S) (himp : ∀ u, S' u → S u) :
    s.Fenced S' :=
  h.or h fun u hu => Or.inl (himp u hu)

theorem Step.fenced (hs : Step w mint s es s') (ho : Orderly w s) (hd : s.store.Sound mint)
    (hS : ∀ u, S u → s.store.view u.id ≠ some u) (h : s.Fenced S) : s'.Fenced S := by
  refine hs.obeys (g := s.guard S) ho.tidy hd ?_ (fun _ hw => hw) ?_ ?_ h
  · intro u n hn hu
    exact Nat.lt_of_lt_of_le (hn hu) (hs.stamp_le ho u.id)
  · intro u n hn hlt hu
    exact hlt (hn hu)
  · intro u n hv hu
    exact absurd hv (hS u hu)

/-- A tick fences off any users with the id that it is for. -/
theorem Orderly.fenced_of_tick (h : Orderly w s) {emails : List String} {a : StoreAnswer}
    (ht : s.tasks t = some ⟨.awaitDrop id emails a, .replied .granted⟩)
    (hS : ∀ u, S u → u.id = id) : (s.turn w t (.awaitDrop id emails a) .granted).Fenced S := by
  intro u p hp
  have hstamp : ((s.turn w t (.awaitDrop id emails a) .granted).fences.fence id).stamp =
      s.fences.clock + 1 := by
    rw [fences_turn]
    exact (Fences.stamp_stamp s.fences id id).trans (if_pos rfl)
  rw [tasks_turn] at hp
  have hp' : (if u = t then some ⟨.dropEntry id emails a, .ready⟩ else s.tasks u) = some p := hp
  split at hp'
  · cases hp'
    exact Stage.Obeys.process trivial (by simp)
  · rename_i hne
    -- What waits to be written has read the clock before this tick, and no other task is writing,
    -- since `t` has the fence.
    have hb := h.readings u p hp'
    have hpending : ∀ v n, n ≤ s.fences.clock →
        ((s.turn w t (.awaitDrop id emails a) .granted).guard S).pending v n := by
      intro v n hn hv
      rw [hS v hv, hstamp]
      exact Nat.lt_succ_of_le hn
    have hwriting : ∀ v, p.held? = some v.id →
        ((s.turn w t (.awaitDrop id emails a) .granted).guard S).writing v := by
      intro v hheld hv
      rw [hS v hv] at hheld
      exact hne (h.eq_of_held? hp' ht hheld rfl)
    obtain ⟨st, sd⟩ := p
    refine ⟨?_, ?_⟩
    · cases st with
      | awaitWrite v n p => exact hpending v n hb.1
      | writeEntry v p => exact hwriting v (by cases sd <;> rfl)
      | writeIndex v p => exact hwriting v (by cases sd <;> rfl)
      | _ => trivial
    · split
      · rename_i hst _
        subst hst
        exact hpending _ _ hb.1
      · rename_i hst _
        subst hst
        exact hpending _ _ hb
      · trivial

theorem Step.drawn_le (hs : Step w mint s es s') : s.store.drawn ≤ s'.store.drawn := by
  rcases hs.store_cases with he | ⟨t, st, q, -, -, -, he⟩
  · rw [he]
  · rw [he]
    exact Directory.drawn_le_serve mint s.store q

theorem Step.extends_store (hs : Step w mint s es s') (hd : s.store.Sound mint)
    (hm : mint.Fresh s'.store.drawn) : s'.store.Sound mint ∧ s.store.Extends s'.store := by
  rcases hs.store_cases with he | ⟨t, st, q, -, -, -, he⟩
  · rw [he]
    exact ⟨hd, .refl _⟩
  · rw [he] at hm ⊢
    exact hd.serve q hm

theorem Step.carried (hs : Step w mint s es s') (h : Coherent w mint s)
    (he : s.store.Extends s'.store) : s'.Obeys (saved s'.store) := by
  refine hs.obeys h.orderly.tidy h.sound ?_ ?_ (fun u n hn _ => hn) ?_ h.carried
  · intro u n hn
    exact (he.history u.id).subset hn
  · intro u hu
    exact (he.history u.id).subset hu
  · intro u n hv
    exact (he.history u.id).subset (Directory.mem_history_of_view hv)

theorem Step.confirmed (hs : Step w mint s es s') (h : Coherent w mint s)
    (hm : mint.Fresh s'.store.drawn) (he : s.store.Extends s'.store) (p : Process)
    (hp : s'.tasks t = some p) : p.Confirmed s'.store := by
  cases hs.origin h.orderly.tidy hp with
  | same ht => exact (h.confirmed _ _ ht).mono he
  | begun hj ht hes => cases start_starts hj <;> trivial
  | spawned hu hst ht =>
      obtain ⟨v, n, rfl, -⟩ := h.orderly.tidy.spawns hu hst
      trivial
  | turned ht hst hes hs' =>
      have hc := (h.confirmed _ _ ht).mono he
      cases h.orderly.tidy.successor ht hst with
      | saved => exact hc
      | deleted => exact hc
      | ticked => exact hc
      | hit hu hst => cases hst <;> trivial
      | fetched hst => cases hst <;> trivial
      | skipped hn hst => cases hst <;> trivial
      | written hst => cases hst <;> trivial
      | indexWritten hst => cases hst <;> trivial
      | _ => trivial
  | @queued st ht ha =>
      have hc := (h.confirmed _ _ ht).mono he
      cases st <;> exact hc
  | @granted st sd ht ha =>
      have hc := (h.confirmed _ _ ht).mono he
      cases st <;> first | exact hc | trivial
  | @exchanged st q ht hq hes hcache =>
      have hc := (h.confirmed _ _ ht).mono he
      cases st <;> exact hc
  | @failed st sd q e ht hq hes =>
      have hc := (h.confirmed _ _ ht).mono he
      cases st <;> first | exact hc | trivial
  | served ht hq hes hstore =>
      rw [hstore] at hm ⊢
      exact Process.confirmed_served h.sound hq hm
  | @refused st q e ht hq hkind hes => cases st <;> trivial

theorem Step.entries (hs : Step w mint s es s') (hquiet : ∀ key, .meddled key ∉ es)
    (h : Coherent w mint s) (he : s.store.Extends s'.store) (id : Uuid) (e : CacheEntry)
    (hentry : s'.cache.entry? (CacheKey.user id) = some e) :
    ∃ u ∈ s'.store.history id, User.codec.ofEntry e.bytes = .ok u := by
  rcases hs.userEntry_cases hquiet hentry with hentry | ⟨t, v, p, ht, rfl, hbytes⟩
  · obtain ⟨u, hu, hread⟩ := h.entries id e hentry
    exact ⟨u, (he.history id).subset hu, hread⟩
  · have hv : v ∈ s.store.history v.id := (h.carried t _ ht).1
    refine ⟨v, (he.history v.id).subset hv, ?_⟩
    rw [hbytes]
    exact v.ofEntry_toBytes

theorem Orderly.not_writing_of_dropping (h : Orderly w s) {u : TaskId} {v : User}
    {emails : List String} {a : StoreAnswer} {sd sd' : Standing} {p : Option Purpose}
    (ht : s.tasks t = some ⟨.dropEntry id emails a, sd⟩)
    (hu : s.tasks u = some ⟨.writeEntry v p, sd'⟩) : v.id ≠ id := by
  rintro rfl
  have hheld : Process.held? ⟨.dropEntry v.id emails a, sd⟩ = some v.id := by cases sd <;> rfl
  have hheld' : Process.held? ⟨.writeEntry v p, sd'⟩ = some v.id := by cases sd' <;> rfl
  obtain rfl := h.eq_of_held? ht hu hheld hheld'
  rw [ht] at hu
  cases hu

theorem Step.fenced_dropping (hs : Step w mint s es s') (h : Coherent w mint s)
    (hd' : s'.store.Sound mint) (he : s.store.Extends s'.store) {emails : List String}
    {a : StoreAnswer} {sd : Standing} (ht : s.tasks t = some ⟨.dropEntry id emails a, sd⟩) :
    s'.Fenced (s'.store.Superseded id a) := by
  have hc : s.store.Confirms id a := h.confirmed t _ ht
  have hfenced := hs.fenced h.orderly h.sound (fun u hu => hu.ne_view hc h.sound)
    (h.dropping t id emails a sd ht).1
  exact hfenced.of_imp fun u hu => hu.of_extends hc he hd'

theorem Step.dropping (hs : Step w mint s es s') (hquiet : ∀ key, .meddled key ∉ es)
    (h : Coherent w mint s) (hd' : s'.store.Sound mint) (he : s.store.Extends s'.store)
    (emails : List String) (a : StoreAnswer) (sd : Standing)
    (hp : s'.tasks t = some ⟨.dropEntry id emails a, sd⟩) :
    s'.Fenced (s'.store.Superseded id a) ∧
      ∀ x, sd = .replied (.cache (.ok x)) → s'.cache.entry? (CacheKey.user id) = none := by
  cases hs.origin h.orderly.tidy hp with
  | same ht =>
      -- Only a write-back could bring the entry back, and the fence of the user keeps it out.
      refine ⟨hs.fenced_dropping h hd' he ht, ?_⟩
      rintro x rfl
      have hnone := (h.dropping t id emails a _ ht).2 x rfl
      rcases hentry : s'.cache.entry? (CacheKey.user id) with _ | e
      · rfl
      · rcases hs.userEntry_cases hquiet hentry with hentry | ⟨u, v, p, hu, hid, -⟩
        · rw [hnone] at hentry
          cases hentry
        · exact absurd hid (h.orderly.not_writing_of_dropping ht hu)
  | begun hj ht hes => cases start_starts hj
  | spawned hu hst ht =>
      obtain ⟨v, n, hst', -⟩ := h.orderly.tidy.spawns hu hst
      cases hst'
  | turned ht hst hes hs' =>
      subst hs'
      refine ⟨?_, by simp⟩
      cases h.orderly.tidy.successor ht hst with
      | ticked => exact h.orderly.fenced_of_tick ht fun u hu => hu.id_eq
      | hit hu hst => cases hst
      | fetched hst => cases hst
      | skipped hn hst => cases hst
      | written hst => cases hst
      | indexWritten hst => cases hst
  | queued ht ha => exact absurd rfl ha
  | granted ht ha => exact absurd rfl ha
  | exchanged ht hq hes hcache =>
      refine ⟨hs.fenced_dropping h hd' he ht, ?_⟩
      intro x _
      cases hq
      rw [hcache]
      show MemoryCache.entry? (s.cache.remove (CacheKey.user id)) (CacheKey.user id) = none
      rw [MemoryCache.entry?_remove, if_pos rfl]
  | failed ht hq hes => exact ⟨hs.fenced_dropping h hd' he ht, by simp⟩
  | served ht hq hes hstore => cases hq
  | refused ht hq hkind hes => cases hq

/-- Coherence is kept by every step of a system whose cache nobody else writes. -/
theorem Step.coherent (hs : Step w mint s es s') (hm : mint.Fresh s'.store.drawn)
    (hquiet : ∀ key, .meddled key ∉ es) (h : Coherent w mint s) : Coherent w mint s' := by
  obtain ⟨hd', he⟩ := hs.extends_store h.sound hm
  exact
    { orderly := hs.orderly h.orderly
      sound := hd'
      carried := hs.carried h he
      confirmed := fun _ p hp => hs.confirmed h hm he p hp
      entries := hs.entries hquiet h he
      dropping := fun _ _ emails a sd hp => hs.dropping hquiet h hd' he emails a sd hp }

theorem Run.drawn_le (h : Run w mint s es s') : s.store.drawn ≤ s'.store.drawn := by
  induction h with
  | refl => exact Nat.le_refl _
  | step h hx ih => exact Nat.le_trans ih hx.drawn_le

theorem Run.coherent (h : Run w mint s es s') (hquiet : ∀ key, .meddled key ∉ es)
    (hm : mint.Fresh s'.store.drawn) (hs : Coherent w mint s) : Coherent w mint s' := by
  induction h with
  | refl => exact hs
  | step h hx ih =>
      have hx' := ih (fun key hk => hquiet key (List.mem_append_left _ hk)) (hm.mono hx.drawn_le)
      exact hx.coherent hm (fun key hk => hquiet key (List.mem_append_right _ hk)) hx'

theorem Run.extends_store (h : Run w mint s es s') (hd : s.store.Sound mint)
    (hm : mint.Fresh s'.store.drawn) : s'.store.Sound mint ∧ s.store.Extends s'.store := by
  induction h with
  | refl => exact ⟨hd, .refl _⟩
  | step h hx ih =>
      obtain ⟨hsound, he⟩ := ih (hm.mono hx.drawn_le)
      obtain ⟨hsound', he'⟩ := hx.extends_store hsound hm
      exact ⟨hsound', he.trans he'⟩

theorem coherent_start {d : Directory} (hd : d.Sound mint) (m : Nat) :
    Coherent w mint { store := d, cache := { maxLifetime := m } } where
  orderly := orderly_start d _
  sound := hd
  carried t p hp := by cases hp
  confirmed t p hp := by cases hp
  entries id e he := by cases he
  dropping t id emails a sd hp := by cases hp

end System

end UserDirectory
