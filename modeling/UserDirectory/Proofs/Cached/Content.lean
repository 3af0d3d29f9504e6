import UserDirectory.Proofs.Cached.Loose
import UserDirectory.Proofs.Cached.Read
import UserDirectory.Proofs.Cached.Schedule

namespace UserDirectory

open UserDirectory.Json

/-- The entries that the versions in a directory may give rise to. -/
inductive Directory.Backs (d : Directory) : String → List UInt8 → Prop
  | user {u : User} (hu : u ∈ d.history u.id) :
      Backs d (CacheKey.user u.id) (User.codec.toBytes u)
  | index {u : User} (hu : u ∈ d.history u.id) (he : u.email ≠ "") :
      Backs d (CacheKey.email u.email) (Codec.uuid.toBytes u.id)

/-- Whether a version of a user was in a directory, or a save in a course of steps has returned
it. -/
def Directory.Saved (d : Directory) (es : List Event) (id : Uuid) (u : User) : Prop :=
  u.id = id ∧ (u ∈ d.history id ∨ ∃ t v, .served t (.save v) (.ok (.user u)) ∈ es)

/-- Whether a stage does not write an index entry for a user without email. -/
def Stage.Named : Stage → Prop
  | .writeIndex u _ => u.email ≠ ""
  | _ => True

/-- The sources of reads when versions of users only are to be seen. -/
def Sources.versions (d : Directory) : Sources where
  entry id u := u ∈ d.history id
  index _ _ := True
  reply q r := ∀ id a, q = .get id → r = .ok a → ∃ u ∈ d.history id, a = .user u

variable {w : Wiring} {f : Fences} {mint : Mint} {d d' : Directory} {key email : String}
  {bs : List UInt8} {id : Uuid} {st st' : Stage} {r : Reply} {a : StoreAnswer}

namespace Directory

theorem Backs.mono (h : d.Backs key bs) (he : d.Extends d') : d'.Backs key bs := by
  cases h with
  | user hu => exact .user ((he.history _).subset hu)
  | index hu hemail => exact .index ((he.history _).subset hu) hemail

theorem Backs.key_eq (h : d.Backs key bs) :
    (∃ id, key = CacheKey.user id) ∨ ∃ email, key = CacheKey.email email := by
  cases h with
  | user hu => exact Or.inl ⟨_, rfl⟩
  | index hu he => exact Or.inr ⟨_, rfl⟩

theorem Backs.of_user (h : d.Backs (CacheKey.user id) bs) :
    ∃ u ∈ d.history id, User.codec.ofEntry bs = .ok u := by
  generalize hkey : CacheKey.user id = key at h
  cases h with
  | @user u hu =>
      rw [CacheKey.user_injective hkey]
      exact ⟨u, hu, u.ofEntry_toBytes⟩
  | index hu he => exact absurd hkey.symm (CacheKey.email_ne_user _ _)

theorem Backs.of_email (h : d.Backs (CacheKey.email email) bs) :
    email ≠ "" ∧ ∃ u ∈ d.history u.id, u.email = email ∧ Codec.uuid.ofEntry bs = .ok u.id := by
  generalize hkey : CacheKey.email email = key at h
  cases h with
  | user hu => exact absurd hkey (CacheKey.email_ne_user _ _)
  | @index u hu he =>
      obtain rfl := CacheKey.email_injective hkey
      exact ⟨he, u, hu, rfl, u.id.ofEntry_toBytes⟩

end Directory

theorem Purpose.Continues.named {u : User} {p : Purpose} (h : p.Continues w u st) : st.Named := by
  cases h <;> trivial

theorem Stage.Successor.named (h : st.Successor w f r st') : st'.Named := by
  cases h with
  | hit hu hc => exact hc.named
  | fetched hc => exact hc.named
  | skipped hn hc => exact hc.named
  | written hc => exact hc.named
  | indexWritten hc => exact hc.named
  | entryWritten he => exact he
  | _ => trivial

theorem Job.Starts.named {j : Job} (h : j.Starts w f st) : st.Named := by
  cases h <;> trivial

theorem Sources.Gives.version (h : (Sources.versions d).Gives id (.ok a)) :
    ∃ u ∈ d.history id, a = .user u := by
  cases h with
  | entry h => exact ⟨_, h, rfl⟩
  | store h => exact h id a rfl rfl

namespace System

variable {s s' : System} {es : List Event} {t : TaskId} {p : Process}

/-- Whether everything that is in the cache or on its way there was saved. -/
structure Sourced (w : Wiring) (mint : Mint) (s : System) : Prop where
  unfenced : Unfenced w s
  sound : s.store.Sound mint
  carried : s.Obeys (saved s.store)
  named : ∀ t st sd, s.tasks t = some ⟨st, sd⟩ → st.Named
  entries : ∀ {key e}, s.cache.entry? key = some e → s.store.Backs key e.bytes

theorem sourced_start (w : Wiring) (hd : d.Sound mint) (m : Nat) :
    Sourced w mint { store := d, cache := { maxLifetime := m } } where
  unfenced := unfenced_start w d _
  sound := hd
  carried t p hp := by cases hp
  named t st sd hp := by cases hp
  entries he := by cases he

theorem Origin.named (h : Origin w mint s es s' t p) (ho : Tidy w s)
    (hnamed : ∀ t st sd, s.tasks t = some ⟨st, sd⟩ → st.Named) : p.stage.Named := by
  rcases h.stage_cases ho with
    ⟨sd, ht⟩ | ⟨j, -, -, hj⟩ | ⟨u, n, -, hst⟩ | ⟨st, r, st', -, -, hst, rfl⟩
  · exact hnamed _ _ _ ht
  · exact hj.named
  · rw [hst]
    trivial
  · exact hst.named

theorem Sourced.backs {sd : Standing} {lifetime : Nat} (h : Sourced w mint s)
    (ht : s.tasks t = some ⟨st, sd⟩) (hq : st.request w = .cache (.set key bs lifetime)) :
    s.store.Backs key bs := by
  cases st with
  | writeEntry v p =>
      cases hq
      exact .user (h.carried t _ ht).1
  | writeIndex v p =>
      cases hq
      exact .index (h.carried t _ ht).1 (h.named t _ _ ht)
  | _ => cases hq

theorem LooseStep.entry?_cases (hs : LooseStep w mint s es s') (hquiet : ∀ key, .meddled key ∉ es)
    {e : CacheEntry} (he : s'.cache.entry? key = some e) :
    s.cache.entry? key = some e ∨ ∃ t st lifetime, s.tasks t = some ⟨st, .ready⟩ ∧
      st.request w = .cache (.set key e.bytes lifetime) := by
  cases hs with
  | step f hf hs =>
      rcases hs.entry?_cases hquiet he with he | ⟨t, st, bytes, lifetime, ht, hq, rfl⟩
      · exact Or.inl he
      · exact Or.inr ⟨t, st, lifetime, ht, hq⟩
  | grant ht ha => exact Or.inl he

theorem LooseStep.sourced (hs : LooseStep w mint s es s') (hm : mint.Fresh s'.store.drawn)
    (hquiet : ∀ key, .meddled key ∉ es) (h : Sourced w mint s) : Sourced w mint s' := by
  obtain ⟨hsound, hextends⟩ := hs.extends_store h.sound hm
  refine ⟨hs.unfenced h.unfenced, hsound, ?_, ?_, ?_⟩
  · intro t p hp
    obtain ⟨f, ho, horigin⟩ := hs.origin h.unfenced hp
    refine horigin.obeys (g := saved s.store) ho h.sound ?_ ?_ (fun u n hn _ => hn) ?_ h.carried
    · intro u n hn
      exact (hextends.history u.id).subset hn
    · intro u hu
      exact (hextends.history u.id).subset hu
    · intro u n hu
      exact (hextends.history u.id).subset (Directory.mem_history_of_view hu)
  · intro t st sd hp
    obtain ⟨f, ho, horigin⟩ := hs.origin h.unfenced hp
    exact horigin.named ho h.named
  · intro key e he
    rcases hs.entry?_cases hquiet he with he | ⟨t, st, lifetime, ht, hq⟩
    · exact (h.entries he).mono hextends
    · exact (h.backs ht hq).mono hextends

theorem LooseRun.sourced (h : LooseRun w mint s es s') (hm : mint.Fresh s'.store.drawn)
    (hquiet : ∀ key, .meddled key ∉ es) (hs : Sourced w mint s) : Sourced w mint s' := by
  induction h with
  | refl => exact hs
  | step h hx ih =>
      exact hx.sourced hm (fun key hk => hquiet key (List.mem_append_right _ hk))
        (ih (hm.mono hx.drawn_le) fun key hk => hquiet key (List.mem_append_left _ hk))

theorem Sourced.supplies (h : Sourced w mint s) (hle : s.store.Extends d) :
    Supplies mint { s with fences := f } es t (.versions d) where
  entry := by
    intro id bs u hget hu
    obtain ⟨e, he, rfl, -⟩ := MemoryCache.entry?_of_get? hget
    obtain ⟨v, hv, hread⟩ := (h.entries he).of_user
    rw [hread] at hu
    cases hu
    exact (hle.history id).subset hv
  index _ := trivial
  reply _ _ := by
    rintro id a rfl hr
    obtain ⟨u, hu, rfl⟩ := Directory.serve_get_ok hr
    exact ⟨u, (hle.history id).subset (Directory.mem_history_of_view hu), rfl⟩
  refusal _ _ := by
    rintro id a - hr
    cases hr

theorem LooseStep.lt_of_returned {a : StoreReply} (hs : LooseStep w mint s es s')
    (h : Unfenced w s) (hret : .returned t a ∈ es) : t < s.nextTask := by
  cases hs with
  | step f hf hs =>
      obtain ⟨st, r, ht, -⟩ := hs.of_returned hret
      exact h.lt_nextTask ht
  | grant ht ha => cases hret

theorem LooseStep.answers {a : StoreReply} {o : Sources} {q : StoreRequest}
    (hs : LooseStep w mint s es s') (h : Unfenced w s)
    (hreads : ∀ p, s.tasks t = some p → p.Reads w o q) (hret : .returned t a ∈ es) :
    o.Answers q a := by
  cases hs with
  | step f hf hs => exact hs.answers (h.tidy hf) hreads hret
  | grant ht ha => cases hret

theorem LooseStep.of_began {j : Job} (hs : LooseStep w mint s es s') (h : .began t j ∈ es) :
    ∃ f st, j.Starts w f st ∧ t = s.nextTask ∧ es = [.began t j] ∧ s'.nextTask = t + 1 ∧
      s'.tasks t = some ⟨st, .ready⟩ := by
  cases hs with
  | step f hf hs =>
      obtain ⟨st, hj, rfl, hes, rfl⟩ := hs.of_began h
      refine ⟨f, st, start_starts hj, rfl, hes, rfl, ?_⟩
      rw [tasks_spawn, if_pos rfl]
  | grant ht ha => cases h

/-- A call that reads is on its way to return a version of the user, or it has returned one. -/
structure Lookup (w : Wiring) (d : Directory) (es : List Event) (s : System) (t : TaskId)
    (id : Uuid) : Prop where
  named : t < s.nextTask
  reads : ∀ p, s.tasks t = some p → p.Reads w (.versions d) (.get id)
  returned : ∀ a, .returned t (.ok a) ∈ es → ∃ u ∈ d.history id, a = .user u

theorem LooseStep.lookup {es₁ : List Event} (hs : LooseStep w mint s es s')
    (h : Sourced w mint s) (hle : s.store.Extends d) (hl : Lookup w d es₁ s t id) :
    Lookup w d (es₁ ++ es) s' t id where
  named := Nat.lt_of_lt_of_le hl.named hs.nextTask_le
  reads := by
    intro p hp
    obtain ⟨f, ho, horigin⟩ := hs.origin h.unfenced hp
    exact horigin.reads ho (h.supplies hle) hl.named hl.reads
  returned := by
    intro a ha
    rcases List.mem_append.mp ha with ha | ha
    · exact hl.returned a ha
    · cases hs.answers h.unfenced hl.reads ha with
      | get hgives => exact hgives.version

theorem LooseStep.lookup_began {es₁ : List Event} (hs : LooseStep w mint s es s')
    (hw : w.isNone = false) (hreturned : ∀ t a, .returned t a ∈ es₁ → t < s.nextTask)
    (hbegan : .began t (.request (.get id)) ∈ es) : Lookup w d (es₁ ++ es) s' t id := by
  obtain ⟨f, st, hj, rfl, rfl, hnext, htask⟩ := hs.of_began hbegan
  refine ⟨hnext ▸ Nat.lt_succ_self _, ?_, ?_⟩
  · intro p hp
    rw [htask] at hp
    cases hp
    exact (hj.reads hw rfl fun hq => hq).process (by simp)
  · intro a ha
    rcases List.mem_append.mp ha with ha | ha
    · exact absurd (hreturned _ _ ha) (Nat.lt_irrefl _)
    · cases List.mem_singleton.mp ha

theorem LooseRun.lookups (h : LooseRun w mint s es s') (hw : w.isNone = false)
    (hm : mint.Fresh s'.store.drawn) (hquiet : ∀ key, .meddled key ∉ es)
    (hs : Sourced w mint s) (hle : s'.store.Extends d) :
    (∀ t a, .returned t a ∈ es → t < s'.nextTask) ∧
      ∀ t id, .began t (.request (.get id)) ∈ es → Lookup w d es s' t id := by
  induction h with
  | refl => simp
  | @step s s' es es' h hx ih =>
      have hquiet₁ : ∀ key, .meddled key ∉ es :=
        fun key hk => hquiet key (List.mem_append_left _ hk)
      have hsourced := h.sourced (hm.mono hx.drawn_le) hquiet₁ hs
      have hextends := (hx.extends_store hsourced.sound hm).2.trans hle
      obtain ⟨hreturned, hlookups⟩ := ih (hm.mono hx.drawn_le) hquiet₁ hextends
      -- The names of all that have returned are carried along: a task that starts is none of them.
      refine ⟨?_, ?_⟩
      · intro t a ha
        refine Nat.lt_of_lt_of_le ?_ hx.nextTask_le
        rcases List.mem_append.mp ha with ha | ha
        · exact hreturned t a ha
        · exact hx.lt_of_returned hsourced.unfenced ha
      · intro t id hbegan
        rcases List.mem_append.mp hbegan with hbegan | hbegan
        · exact hx.lookup hsourced hextends (hlookups t id hbegan)
        · exact hx.lookup_began hw hreturned hbegan

theorem LooseStep.mem_history {u : User} (hs : LooseStep w mint s es s')
    (hd : s.store.Sound mint) (hm : mint.Fresh s'.store.drawn)
    (hu : u ∈ s'.store.history id) :
    u ∈ s.store.history id ∨
      u.isLatestVersion = true ∧ ∃ t v, .served t (.save v) (.ok (.user u)) ∈ es := by
  cases hs with
  | step f hf hs =>
      rcases hs.store_cases with he | ⟨t, st, q, -, -, rfl, he⟩
      · rw [he] at hu
        exact Or.inl hu
      · rw [he] at hu hm
        rcases hd.mem_history_serve hm hu with hu | ⟨v, rfl, hr⟩
        · exact Or.inl hu
        · have hlatest : u.isLatestVersion = true := by
            cases Directory.eq_of_serve_save hr
            exact Directory.isLatestVersion_stage _ _ _
          exact Or.inr ⟨hlatest, t, v, List.mem_singleton.mpr (hr ▸ rfl)⟩
  | grant ht ha => exact Or.inl hu

theorem LooseRun.mem_history {u : User} (h : LooseRun w mint s es s') (hd : s.store.Sound mint)
    (hm : mint.Fresh s'.store.drawn) (hu : u ∈ s'.store.history id) :
    u ∈ s.store.history id ∨
      u.isLatestVersion = true ∧ ∃ t v, .served t (.save v) (.ok (.user u)) ∈ es := by
  induction h with
  | refl => exact Or.inl hu
  | step h hx ih =>
      have hm' := hm.mono hx.drawn_le
      rcases hx.mem_history (h.extends_store hd hm').1 hm hu with hu | ⟨hlatest, t, v, hserved⟩
      · rcases ih hm' hu with hu | ⟨hlatest, t, v, hserved⟩
        · exact Or.inl hu
        · exact Or.inr ⟨hlatest, t, v, List.mem_append_left _ hserved⟩
      · exact Or.inr ⟨hlatest, t, v, List.mem_append_right _ hserved⟩

/-- What there is of a cache that holds nothing but what was saved. -/
structure Genuine (d : Directory) (es : List Event) (s : System) : Prop where
  user : ∀ {id e}, s.cache.entry? (CacheKey.user id) = some e →
    ∃ u, User.codec.ofEntry e.bytes = .ok u ∧ d.Saved es id u
  email : ∀ {email e}, s.cache.entry? (CacheKey.email email) = some e →
    email ≠ "" ∧ ∃ u, Codec.uuid.ofEntry e.bytes = .ok u.id ∧ u.email = email ∧
      d.Saved es u.id u
  key : ∀ {key e}, s.cache.entry? key = some e →
    (∃ id, key = CacheKey.user id) ∨ ∃ email, key = CacheKey.email email
  get : ∀ {t id a}, .began t (.request (.get id)) ∈ es → .returned t (.ok a) ∈ es →
    ∃ u, a = .user u ∧ d.Saved es id u ∧ u.isLatestVersion = true

/-- What the cache holds was saved, and so is what calls that read a user return: they return
it as it was saved, whatever fails and even if fences are lost. -/
theorem cache_genuine {cfg : UserCacheConfig} {m : Nat} (hd : d.Reachable mint)
    (h : LooseRun (some cfg) mint { store := d, cache := { maxLifetime := m } } es s)
    (hm : mint.Fresh s.store.drawn) (hquiet : ∀ key, .meddled key ∉ es) : Genuine d es s := by
  have hm₀ := hm.mono h.drawn_le
  have hsound := hd.sound hm₀
  have hstart := sourced_start (some cfg) hsound m
  have hsourced := h.sourced hm hquiet hstart
  have hsaved : ∀ {id u}, u ∈ s.store.history id →
      d.Saved es id u ∧ u.isLatestVersion = true := by
    intro id u hu
    have hid := hsourced.sound.id_of_mem_history hu
    rcases h.mem_history hsound hm hu with hu | ⟨hlatest, hserved⟩
    · exact ⟨⟨hid, Or.inl hu⟩, hd.isLatestVersion hm₀ hu⟩
    · exact ⟨⟨hid, Or.inr hserved⟩, hlatest⟩
  refine ⟨?_, ?_, fun he => (hsourced.entries he).key_eq, ?_⟩
  · intro id e he
    obtain ⟨u, hu, hread⟩ := (hsourced.entries he).of_user
    exact ⟨u, hread, (hsaved hu).1⟩
  · intro email e he
    obtain ⟨hne, u, hu, hemail, hread⟩ := (hsourced.entries he).of_email
    exact ⟨hne, u, hread, hemail, (hsaved hu).1⟩
  · intro t id a hbegan hreturned
    have hlookups := (h.lookups rfl hm hquiet hstart (.refl _)).2
    obtain ⟨u, hu, rfl⟩ := (hlookups t id hbegan).returned a hreturned
    exact ⟨u, rfl, hsaved hu⟩

theorem LooseRun.of_muddleUnfenced? {ms : List RoughMove}
    (h : s.muddleUnfenced? w mint ms = some (es, s')) :
    LooseRun w mint s es s' ∧ ∀ key, .meddled key ∉ es := by
  induction ms generalizing s es with
  | nil =>
      cases h
      exact ⟨.refl _, by simp⟩
  | cons m rest ih =>
      simp only [muddleUnfenced?] at h
      split at h
      · rename_i es₁ s₁ hm
        obtain ⟨⟨es₂, s₂⟩, hrest, heq⟩ := Option.map_eq_some_iff.mp h
        cases heq
        obtain ⟨hrun, hquiet⟩ := ih hrest
        have hstep : LooseStep w mint s es₁ s₁ :=
          .step _ (by simp [Fences.fence]) (.of_roughMove? hm)
        refine ⟨((LooseRun.refl s).step hstep).trans hrun, ?_⟩
        intro key hk
        rcases List.mem_append.mp hk with hk | hk
        · exact quiet_of_roughMove? hm key hk
        · exact hquiet key hk
      · cases h

/-- A user is read, saved over, and then written back, since the fence has been lost: the old
version stays in the cache, but nothing that was not saved. -/
theorem cache_genuine_of_lost_fence :
    let mint : Mint := fun n => .ofNat (n + 1)
    let u : User := { id := mint 1, versionId := mint 0, isLatestVersion := true }
    let v : User := { u with versionId := mint 2, firstName := "Ada" }
    ∃ es s, LooseRun (some {}) mint { store := {}, cache := { maxLifetime := 1000 } } es s ∧
      [.began 1 (.request (.get u.id)), .returned 1 (.ok (.user u)), .returned 3 (.ok (.user v)),
        .returned 2 (.ok .done)].Sublist es ∧
      (s.cache.entry? (CacheKey.user u.id)).isSome ∧ Genuine {} es s := by
  intro mint u v
  obtain ⟨⟨es, s⟩, hplay, hend⟩ := (Option.any_eq_true (fun x : List Event × System =>
      decide (x.2.store.drawn = 3 ∧ (x.2.cache.entry? (CacheKey.user u.id)).isSome ∧
        List.isSublist [.began 1 (.request (.get u.id)), .returned 1 (.ok (.user u)),
          .returned 3 (.ok (.user v)), .returned 2 (.ok .done)] x.1))
    (muddleUnfenced? (some {}) mint { store := {}, cache := { maxLifetime := 1000 } }
      ([RoughMove.move (.start (.request (.save {})))] ++ List.replicate 6 (.move (.advance 0)) ++
        [RoughMove.move (.start (.request (.get u.id)))] ++ List.replicate 4 (.move (.advance 1)) ++
        [RoughMove.move (.start (.request (.save v)))] ++ List.replicate 8 (.move (.advance 3)) ++
        List.replicate 4 (.move (.advance 2))))).mp (by decide +kernel)
  obtain ⟨hrun, hquiet⟩ := LooseRun.of_muddleUnfenced? hplay
  obtain ⟨hdrawn, hentry, hl⟩ := of_decide_eq_true hend
  have hm : mint.Fresh s.store.drawn := by
    rw [hdrawn]
    decide +kernel
  exact ⟨es, s, hrun, List.isSublist_iff_sublist.mp hl, hentry,
    cache_genuine .empty hrun hm hquiet⟩

end System

end UserDirectory
