import UserDirectory.Proofs.Cache.Key
import UserDirectory.Proofs.Cache.Memory
import UserDirectory.Proofs.Cached.Exclusion

namespace UserDirectory.System

/-- How a task comes to be as it is, in a step from `s` to `s'`. -/
inductive Origin (w : Wiring) (mint : Mint) (s : System) (es : List Event) (s' : System)
    (t : TaskId) : Process → Prop
  | same {p : Process} (ht : s.tasks t = some p) (hes : ∀ q r, .served t q r ∉ es) :
      Origin w mint s es s' t p
  | begun {j : Job} {st : Stage} (hj : j.start w s.fences = .stage st) (ht : t = s.nextTask)
      (hes : es = [.began t j]) : Origin w mint s es s' t ⟨st, .ready⟩
  /-- The task is a write-back that another one has left behind. -/
  | spawned {u : TaskId} {st st' : Stage} {r : Reply} (hu : s.tasks u = some ⟨st, .replied r⟩)
      (hst : (st.turn w s.fences r).spawned = some st') (ht : t = s.nextTask) :
      Origin w mint s es s' t ⟨st', .ready⟩
  | turned {st st' : Stage} {r : Reply} (ht : s.tasks t = some ⟨st, .replied r⟩)
      (hst : (st.turn w s.fences r).next = .stage st') (hes : es = [.turned t st r])
      (hs' : s' = s.turn w t st r) : Origin w mint s es s' t ⟨st', .ready⟩
  | queued {st : Stage} (ht : s.tasks t = some ⟨st, .ready⟩) (ha : st.awaited? ≠ none)
      (hes : ∀ q r, .served t q r ∉ es) : Origin w mint s es s' t ⟨st, .queued⟩
  | granted {st : Stage} {sd : Standing} (ht : s.tasks t = some ⟨st, sd⟩)
      (ha : st.awaited? ≠ none) (hes : ∀ q r, .served t q r ∉ es) :
      Origin w mint s es s' t ⟨st, .replied .granted⟩
  | exchanged {st : Stage} {q : CacheRequest} (ht : s.tasks t = some ⟨st, .ready⟩)
      (hq : st.request w = .cache q)
      (hes : es = [.exchanged t q (s.cache.serve s.now q).1])
      (hcache : s'.cache = (s.cache.serve s.now q).2) :
      Origin w mint s es s' t ⟨st, .replied (.cache (s.cache.serve s.now q).1)⟩
  | failed {st : Stage} {sd : Standing} {q : CacheRequest} {e : CacheError}
      (ht : s.tasks t = some ⟨st, sd⟩) (hq : st.request w = .cache q)
      (hes : es = [.exchanged t q (.error e)]) :
      Origin w mint s es s' t ⟨st, .replied (.cache (.error e))⟩
  | served {st : Stage} {q : StoreRequest} (ht : s.tasks t = some ⟨st, .ready⟩)
      (hq : st.request w = .store q) (hes : es = [.served t q (s.store.serve mint q).1])
      (hstore : s'.store = (s.store.serve mint q).2) :
      Origin w mint s es s' t ⟨st, .replied (.store (s.store.serve mint q).1)⟩
  | refused {st : Stage} {q : StoreRequest} {e : UserError} (ht : s.tasks t = some ⟨st, .ready⟩)
      (hq : st.request w = .store q) (he : e.kind ≠ .notFound) (hes : es = [.refused t q e]) :
      Origin w mint s es s' t ⟨st, .replied (.store (.error e))⟩

variable {w : Wiring} {mint : Mint} {s s' : System} {es : List Event} {t u : TaskId}
  {p p' : Process}

theorem Origin.of_setTask {o : Option Process} (h : (s.setTask t o).tasks u = some p)
    (hes : u ≠ t → ∀ q r, .served u q r ∉ es) (ho : ∀ p ∈ o, Origin w mint s es s' t p) :
    Origin w mint s es s' u p := by
  rw [tasks_setTask] at h
  split at h
  · rename_i hu
    exact hu ▸ ho p h
  · rename_i hu
    exact .same h (hes hu)

theorem Tidy.cases_cancel (h : Tidy w s) (hp : (s.cancel t p').tasks u = some p) :
    s.tasks u = some p ∨ ∃ st, s.tasks u = some ⟨st, .queued⟩ ∧ st.awaited? ≠ none ∧
      p = ⟨st, .replied .granted⟩ := by
  rcases hid : p'.stage.fenced? with _ | id
  · rw [cancel_of_free hid, tasks_setTask] at hp
    split at hp
    · cases hp
    · exact Or.inl hp
  · rw [cancel_of_fenced hid, tasks_grant, tasks_setTask] at hp
    split at hp
    · rename_i hw
      obtain ⟨st, hst, ha⟩ := awaited?_eq_some (h.awaited_of_abandon hw)
      split at hp
      · cases hp
      · have hp' : (s.tasks u).map (fun p => { p with standing := .replied .granted }) =
            some p := hp
        rw [hst] at hp'
        cases hp'
        exact Or.inr ⟨st, hst, by simp [ha], rfl⟩
    · split at hp
      · cases hp
      · exact Or.inl hp

theorem Step.origin (hs : Step w mint s es s') (h : Tidy w s)
    (hp : s'.tasks u = some p) : Origin w mint s es s' u p := by
  cases hs with
  | begin hj =>
      rw [tasks_spawn] at hp
      split at hp
      · rename_i hu
        cases hp
        exact .begun hj hu (by rw [hu])
      · exact .same hp (by simp)
  | reject e => exact .same hp (by simp)
  | exchange ht hq =>
      refine Origin.of_setTask (s := s) hp (by simp) ?_
      rintro p ⟨⟩
      exact .exchanged ht hq rfl rfl
  | fail ht hq =>
      refine Origin.of_setTask hp (by simp) ?_
      rintro p ⟨⟩
      exact .failed ht hq rfl
  | serve ht hq =>
      refine Origin.of_setTask (s := s) hp (fun hu => by simp [hu]) ?_
      rintro p ⟨⟩
      exact .served ht hq rfl rfl
  | refuse ht hq he =>
      refine Origin.of_setTask hp (by simp) ?_
      rintro p ⟨⟩
      exact .refused ht hq he rfl
  | @ask t st id ht hq =>
      have ha : st.awaited? ≠ none := by simp [Stage.request_eq_fence_iff.mp hq]
      refine Origin.of_setTask (s := s) hp (by simp) ?_
      rintro p ⟨⟩
      split
      · exact .granted ht ha (by simp)
      · exact .queued ht ha (by simp)
  | @turn t st r ht =>
      have hes : ∀ q a, .served u q a ∉ Event.turned t st r ::
          (st.turn w s.fences r).next.events t :=
        fun _ _ => Next.not_mem_turned (by simp) (by simp)
      rcases cases_turn (h.woken_ne ht) hp with ⟨hst, hu, hr⟩ | ⟨rfl, hst, hr⟩ |
          ⟨hne, hw, hr, sd, hu⟩ | ⟨-, -, hu⟩
      · obtain ⟨st', sd'⟩ := p
        obtain rfl : sd' = .ready := hr
        exact .spawned ht hst hu
      · obtain ⟨st', sd'⟩ := p
        obtain rfl : sd' = .ready := hr
        exact .turned ht hst (by rw [hst]; rfl) rfl
      · obtain ⟨st', sd'⟩ := p
        obtain rfl : sd' = .replied .granted := hr
        obtain ⟨-, id, hwaits⟩ := h.awaited_of_turn ht hw
        obtain ⟨st₁, hst₁, ha⟩ := awaited?_eq_some hwaits
        rw [hu] at hst₁
        cases hst₁
        exact .granted hu (by simp [ha]) hes
      · exact .same hu hes
  | cancel ht =>
      rcases h.cases_cancel hp with hu | ⟨st, hu, ha, rfl⟩
      · exact .same hu (by simp)
      · exact .granted hu ha (by simp)
  | evict key => exact .same hp (by simp)
  | meddle key bytes lifetime => exact .same hp (by simp)
  | elapse ms => exact .same hp (by simp)

theorem Origin.eq_nextTask (h : Origin w mint s es s' t p) (hnone : s.tasks t = none) :
    t = s.nextTask := by
  have hgone : ∀ {p}, s.tasks t ≠ some p := by simp [hnone]
  cases h with
  | begun hj ht hes => exact ht
  | spawned hu hst ht => exact ht
  | same ht => exact absurd ht hgone
  | turned ht => exact absurd ht hgone
  | queued ht => exact absurd ht hgone
  | granted ht => exact absurd ht hgone
  | exchanged ht => exact absurd ht hgone
  | failed ht => exact absurd ht hgone
  | served ht => exact absurd ht hgone
  | refused ht => exact absurd ht hgone

theorem Origin.of_served {q : StoreRequest} {r : StoreReply} (h : Origin w mint s es s' t p)
    (ht : t < s.nextTask) (hes : .served t q r ∈ es) :
    ∃ st, s.tasks t = some ⟨st, .ready⟩ ∧ st.request w = .store q := by
  cases h with
  | same hst hnot => exact absurd hes (hnot _ _)
  | begun hj hu he => exact absurd hu (Nat.ne_of_lt ht)
  | spawned hu hst hn => exact absurd hn (Nat.ne_of_lt ht)
  | queued hst ha hnot => exact absurd hes (hnot _ _)
  | granted hst ha hnot => exact absurd hes (hnot _ _)
  | served hst hq he =>
      rw [he] at hes
      cases List.mem_singleton.mp hes
      exact ⟨_, hst, hq⟩
  | turned hst hnext he => simp [he] at hes
  | exchanged hst hq he => simp [he] at hes
  | failed hst hq he => simp [he] at hes
  | refused hst hq hkind he => simp [he] at hes

/-- How a task comes to its stage: it is there already, it begins there, or a turn leads to it. -/
theorem Origin.stage_cases (h : Origin w mint s es s' t p) (ho : Tidy w s) :
    (∃ sd, s.tasks t = some ⟨p.stage, sd⟩) ∨
      (∃ j, t = s.nextTask ∧ es = [.began t j] ∧ j.Starts w s.fences p.stage) ∨
      (∃ u n, t = s.nextTask ∧ p.stage = .awaitWrite u n none) ∨
      ∃ st r st', s.tasks t = some ⟨st, .replied r⟩ ∧ es = [.turned t st r] ∧
        st.Successor w s.fences r st' ∧ p = ⟨st', .ready⟩ := by
  cases h with
  | same ht => exact Or.inl ⟨_, ht⟩
  | begun hj ht hes => exact Or.inr (Or.inl ⟨_, ht, hes, start_starts hj⟩)
  | spawned hu hst ht =>
      obtain ⟨v, n, rfl, -⟩ := ho.spawns hu hst
      exact Or.inr (Or.inr (Or.inl ⟨v, n, ht, rfl⟩))
  | turned ht hst hes hs' =>
      exact Or.inr (Or.inr (Or.inr ⟨_, _, _, ht, hes, ho.successor ht hst, rfl⟩))
  | queued ht => exact Or.inl ⟨_, ht⟩
  | granted ht => exact Or.inl ⟨_, ht⟩
  | exchanged ht => exact Or.inl ⟨_, ht⟩
  | failed ht => exact Or.inl ⟨_, ht⟩
  | served ht => exact Or.inl ⟨_, ht⟩
  | refused ht => exact Or.inl ⟨_, ht⟩

theorem Step.store_cases (hs : Step w mint s es s') :
    s'.store = s.store ∨ ∃ t st q, s.tasks t = some ⟨st, .ready⟩ ∧ st.request w = .store q ∧
      es = [.served t q (s.store.serve mint q).1] ∧ s'.store = (s.store.serve mint q).2 := by
  cases hs with
  | serve ht hq => exact Or.inr ⟨_, _, _, ht, hq, rfl, rfl⟩
  | turn ht => exact Or.inl (store_turn s _ _ _)
  | cancel ht => exact Or.inl (store_cancel s _ _)
  | _ => exact Or.inl rfl

theorem Step.of_served {q : StoreRequest} {r : StoreReply} (hs : Step w mint s es s')
    (h : .served t q r ∈ es) :
    ∃ st, s.tasks t = some ⟨st, .ready⟩ ∧ st.request w = .store q ∧
      r = (s.store.serve mint q).1 ∧ s'.store = (s.store.serve mint q).2 := by
  cases hs with
  | serve ht hq =>
      cases List.mem_singleton.mp h
      exact ⟨_, ht, hq, rfl, rfl⟩
  | turn ht => exact absurd h (Next.not_mem_turned (by simp) (by simp))
  | _ => simp at h

theorem Step.of_refused {q : StoreRequest} {e : UserError} (hs : Step w mint s es s')
    (h : .refused t q e ∈ es) : es = [.refused t q e] := by
  cases hs with
  | refuse ht hq he => rw [List.mem_singleton.mp h]
  | turn ht => exact absurd h (Next.not_mem_turned (by simp) (by simp))
  | _ => simp at h

theorem Step.of_exchanged {q : CacheRequest} {c : CacheReply} (hs : Step w mint s es s')
    (h : .exchanged t q c ∈ es) :
    es = [.exchanged t q c] ∧ ((∃ e, c = .error e) ∨ c = (s.cache.serve s.now q).1) := by
  cases hs with
  | exchange ht hq =>
      cases List.mem_singleton.mp h
      exact ⟨rfl, Or.inr rfl⟩
  | fail ht hq =>
      cases List.mem_singleton.mp h
      exact ⟨rfl, Or.inl ⟨_, rfl⟩⟩
  | turn ht => exact absurd h (Next.not_mem_turned (by simp) (by simp))
  | _ => simp at h

theorem Run.split_exchanged {q : CacheRequest} {c : CacheReply} {es₁ es₂ : List Event}
    (h : Run w mint s es s') (he : es = es₁ ++ .exchanged t q c :: es₂) :
    ∃ s₁ s₂, Run w mint s es₁ s₁ ∧ Step w mint s₁ [.exchanged t q c] s₂ ∧
      Run w mint s₂ es₂ s' := by
  obtain ⟨l, x, es₃, es₄, s₁, s₂, rfl, rfl, h₃, hs, h₄⟩ := h.split he
  obtain ⟨hes, -⟩ := hs.of_exchanged (t := t) (q := q) (c := c) (by simp)
  obtain ⟨rfl, rfl⟩ : l = [] ∧ x = [] := by
    simpa [List.append_eq_cons_iff] using hes
  exact ⟨s₁, s₂, by simpa using h₃, hs, by simpa using h₄⟩

theorem Step.tasks_of_returned {a : StoreReply} (hs : Step w mint s es s') (ho : Tidy w s)
    (h : .returned t a ∈ es) : s'.tasks t = none := by
  obtain ⟨st, r, ht, hnext, -, rfl⟩ := hs.of_returned h
  rw [ho.tasks_turn ht, hnext]
  rfl

theorem Step.entry?_cases (hs : Step w mint s es s') (hquiet : ∀ key, .meddled key ∉ es)
    {key : String} {e : CacheEntry} (he : s'.cache.entry? key = some e) :
    s.cache.entry? key = some e ∨ ∃ t st bytes lifetime, s.tasks t = some ⟨st, .ready⟩ ∧
      st.request w = .cache (.set key bytes lifetime) ∧
      e = ⟨bytes, s.now, min lifetime s.cache.maxLifetime⟩ := by
  cases hs with
  | @exchange t st q ht hq =>
      cases q with
      | get key' => exact Or.inl he
      | set key' bytes lifetime =>
          have he' : MemoryCache.entry? (s.cache.set s.now key' bytes lifetime) key = some e := he
          rw [MemoryCache.entry?_set] at he'
          split at he'
          · rename_i hkey
            cases he'
            exact Or.inr ⟨t, st, bytes, lifetime, ht, hkey ▸ hq, rfl⟩
          · exact Or.inl he'
      | remove key' =>
          have he' : MemoryCache.entry? (s.cache.remove key') key = some e := he
          rw [MemoryCache.entry?_remove] at he'
          split at he'
          · cases he'
          · exact Or.inl he'
  | evict key' =>
      have he' : MemoryCache.entry? (s.cache.remove key') key = some e := he
      rw [MemoryCache.entry?_remove] at he'
      split at he'
      · cases he'
      · exact Or.inl he'
  | meddle key' bytes lifetime => exact absurd (List.mem_singleton_self _) (hquiet key')
  | turn ht =>
      rw [cache_turn] at he
      exact Or.inl he
  | cancel ht =>
      rw [cache_cancel] at he
      exact Or.inl he
  | _ => exact Or.inl he

theorem Step.userEntry_cases (hs : Step w mint s es s') (hquiet : ∀ key, .meddled key ∉ es)
    {id : Uuid} {e : CacheEntry} (he : s'.cache.entry? (CacheKey.user id) = some e) :
    s.cache.entry? (CacheKey.user id) = some e ∨
      ∃ t v p, s.tasks t = some ⟨.writeEntry v p, .ready⟩ ∧ v.id = id ∧
        e.bytes = User.codec.toBytes v := by
  rcases hs.entry?_cases hquiet he with he | ⟨t, st, bytes, lifetime, ht, hq, rfl⟩
  · exact Or.inl he
  · cases st with
    | writeEntry v p =>
        simp only [Stage.request, Request.cache.injEq, CacheRequest.set.injEq] at hq
        exact Or.inr ⟨t, v, p, ht, CacheKey.user_injective hq.1, hq.2.1.symm⟩
    | writeIndex v p =>
        simp only [Stage.request, Request.cache.injEq, CacheRequest.set.injEq] at hq
        exact absurd hq.1 (CacheKey.email_ne_user _ _)
    | _ => cases hq

end UserDirectory.System
