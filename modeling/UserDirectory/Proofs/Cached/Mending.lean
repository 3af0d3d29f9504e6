import UserDirectory.Proofs.Cached.Clock
import UserDirectory.Proofs.Cached.Lookup

namespace UserDirectory

open UserDirectory.Json

/-- The user that the index names for an email at a time, if it has an entry of the email that can
be read. -/
def MemoryCache.named (c : MemoryCache) (now : Nat) (email : String) : Option Uuid :=
  (c.get? now (CacheKey.email email)).bind fun bs => (Codec.uuid.ofEntry bs).toOption

/-- Whether the index names the user that a lookup has found, and nobody if it has found nobody.
Users without an email are not indexed. -/
structure Mended (email : String) (named : Option Uuid) (a : StoreReply) : Prop where
  found : ∀ u, a = .ok (.user u) → email ≠ "" → named = some u.id
  missed : ∀ e, a = .error e → named = none

/-- Whether a user may be handed over to a purpose of a lookup that began when the clock showed
`clock`, if the index names `named` by now. -/
def Purpose.Mends (email : String) (clock : Nat) (named : Option Uuid) (u : User) : Purpose → Prop
  | .answer => u.email = email
  | .confirm email' n => email' = email ∧ n = clock ∧ named = some u.id
  | .amend _ => False

/-- Whether a stage is one of such a lookup. -/
def Stage.Mends (email : String) (clock : Nat) (named : Option Uuid) : Stage → Prop
  | .readEntry id n p | .fetch id n p => n = clock ∧ p = .confirm email clock ∧ named = some id
  | .readIndex email' n => email' = email ∧ n = clock
  | .fetchByEmail email' n => email' = email ∧ n = clock ∧ named = none
  | .awaitWrite u n (some p) => n = clock ∧ p.Mends email clock named u
  | .writeEntry u (some p) | .writeIndex u (some p) => p.Mends email clock named u
  | .dropIndex email₁ (.lookUp email₂ n) => email₁ = email ∧ email₂ = email ∧ n = clock
  | _ => False

/-- What the index has come to name when a stage has got its reply from the cache. -/
def Stage.Learnt (email : String) (named : Option Uuid) : Stage → Reply → Prop
  | .readIndex _ _, .cache c => indexRead c = named
  | .writeEntry _ _, .cache c => ∃ a, c = .ok a
  | .writeIndex u _, .cache _ => u.email = email → named = some u.id
  | .dropIndex _ _, .cache _ => named = none
  | _, _ => True

def Process.Mends (email : String) (clock : Nat) (named : Option Uuid) (p : Process) : Prop :=
  p.stage.Mends email clock named ∧ ∀ r, p.standing = .replied r → p.stage.Learnt email named r

namespace MemoryCache

variable {c : MemoryCache} {now n : Nat} {email email' : String} {q : CacheRequest}

theorem indexRead_serve (c : MemoryCache) (now : Nat) (email : String) :
    indexRead (c.serve now (.get (CacheKey.email email))).1 = c.named now email := by
  simp only [serve, named]
  cases c.get? now (CacheKey.email email) <;> rfl

theorem named_set_user (c : MemoryCache) (id : Uuid) (bytes : List UInt8) (lifetime : Nat) :
    (c.set now (CacheKey.user id) bytes lifetime).named n email = c.named n email := by
  simp only [named, get?_set, if_neg (CacheKey.email_ne_user email id)]

theorem named_set_email (c : MemoryCache) (id : Uuid) {lifetime : Nat}
    (hlive : n < now + min lifetime c.maxLifetime) :
    (c.set now (CacheKey.email email') (Codec.uuid.toBytes id) lifetime).named n email =
      if email = email' then some id else c.named n email := by
  simp only [named, get?_set, CacheKey.email_injective.eq_iff, if_pos hlive]
  split
  · simp [Uuid.ofEntry_toBytes, Except.toOption]
  · rfl

theorem named_remove_email (c : MemoryCache) :
    MemoryCache.named (c.remove (CacheKey.email email')) n email =
      if email = email' then none else c.named n email := by
  simp only [named, get?_remove, CacheKey.email_injective.eq_iff]
  split <;> rfl

theorem get?_serve (hlast : ∀ key, c.get? n key = c.get? now key) (hle : now ≤ n)
    (hset : ∀ key bytes lifetime, q = .set key bytes lifetime →
      n < now + min lifetime c.maxLifetime)
    (key : String) : (c.serve now q).2.get? n key = (c.serve now q).2.get? now key := by
  cases q with
  | get key' => exact hlast key
  | set key' bytes lifetime =>
      have hlive := hset _ _ _ rfl
      simp only [serve, get?_set, hlast, if_pos hlive, if_pos (Nat.lt_of_le_of_lt hle hlive)]
  | remove key' => simp only [serve, get?_remove, hlast]

theorem serve_of_error {e : CacheError} (h : (c.serve now q).1 = .error e) :
    (c.serve now q).2 = c := by
  cases q with
  | get key => rfl
  | set key bytes lifetime => cases h
  | remove key => cases h

end MemoryCache

section Turns

variable {w : Wiring} {mint : Mint} {f : Fences} {d : Directory} {E : List Event} {t : TaskId}
  {email : String} {clock : Nat} {named : Option Uuid} {u : User} {id : Uuid} {p : Purpose}
  {st : Stage} {r : Reply}

theorem Mended.of_found (h : email ≠ "" → named = some u.id) :
    Mended email named (.ok (.user u)) where
  found := by
    rintro v ⟨⟩
    exact h
  missed := by
    rintro e ⟨⟩

theorem Mended.of_missed {e : UserError} (h : named = none) : Mended email named (.error e) where
  found := by
    rintro u ⟨⟩
  missed := fun _ _ => h

theorem deliver_mends (h : p.Mends email clock named u)
    (hnamed : u.email = email → email ≠ "" → named = some u.id) :
    (deliver w f id u p).LeadsTo (Stage.Mends email clock named) (Mended email named)
      fun _ _ => True := by
  refine deliver_leadsTo ?_ ?_
  · intro st hst
    cases hst with
    | saving => exact h.elim
    | replacing => exact h.elim
    | stale he =>
        obtain ⟨rfl, rfl, -⟩ := h
        exact ⟨rfl, rfl, rfl⟩
  · intro a ha
    cases ha with
    | answer => exact .of_found (hnamed h)
    | confirm he => exact .of_found fun _ => h.2.2

theorem endWrite_mends {e : LogEvent} (h : p.Mends email clock named u)
    (hnamed : u.email = email → email ≠ "" → named = some u.id) :
    (endWrite w f u (some p) e).LeadsTo (Stage.Mends email clock named) (Mended email named)
      fun _ _ => True := by
  have hdeliver : (deliver w (f.release u.id).2 u.id u p).LeadsTo
      (Stage.Mends email clock named) (Mended email named) fun _ _ => True := deliver_mends h hnamed
  exact hdeliver.of_eq rfl rfl

/-- A turn of a lookup in the inline mode leads to a stage of the lookup, or ends it with a reply
which the index agrees with. -/
theorem Stage.Mends.turn (h : st.Mends email f.clock named) (hw : w.isNone = false)
    (hinline : w.isInline = true) (hd : d.Sound mint)
    (hstamps : ∀ id, (f.fence id).stamp ≤ f.clock) (hfits : r.Fits (st.request w))
    (hreplied : st.RepliedFrom w (System.present mint d E t) r)
    (hlearnt : st.Learnt email named r) :
    (st.turn w f r).LeadsTo (Stage.Mends email f.clock named) (Mended email named)
      fun _ _ => True := by
  cases st with
  | readEntry id n p =>
      obtain ⟨c, rfl⟩ := hfits.cache
      obtain ⟨rfl, rfl, hnamed⟩ := h
      simp only [Stage.turn]
      split
      · rename_i u hu
        have hid : u.id = id := hd.id_of_view (hreplied u hu)
        have hmends : (Purpose.confirm email f.clock).Mends email f.clock named u :=
          ⟨rfl, rfl, hid ▸ hnamed⟩
        exact (deliver_mends hmends fun _ _ => hid ▸ hnamed).of_eq rfl rfl
      · exact Turn.leadsTo_stage ⟨rfl, rfl, hnamed⟩
  | fetch id n p =>
      obtain ⟨a, rfl⟩ := hfits.store
      obtain ⟨rfl, rfl, hnamed⟩ := h
      obtain rfl : a = (d.serve mint (.get id)).1 := hreplied _ rfl
      rw [Directory.serve_get]
      rcases hview : d.view id with _ | u
      · exact Turn.leadsTo_stage ⟨rfl, rfl, rfl⟩
      · simp only [Stage.turn, populate_inline hw hinline]
        exact Turn.leadsTo_stage ⟨rfl, rfl, rfl, hd.id_of_view hview ▸ hnamed⟩
  | readIndex email' n =>
      obtain ⟨c, rfl⟩ := hfits.cache
      obtain ⟨rfl, rfl⟩ := h
      have hread : indexRead c = named := hlearnt
      rcases turn_readIndex_cases w f email' f.clock c with
        ⟨bs, id, rfl, hid, hturn⟩ | ⟨hunread, logs, hturn⟩
      · rw [hturn]
        have hnamed : named = some id := hread ▸ indexRead_eq_some_iff.mpr ⟨bs, rfl, hid⟩
        exact Turn.leadsTo_stage ⟨rfl, rfl, hnamed⟩
      · rw [hturn]
        have hnamed : named = none := hread ▸ indexRead_eq_none hunread
        exact Turn.leadsTo_stage ⟨rfl, rfl, hnamed⟩
  | fetchByEmail email' n =>
      obtain ⟨a, rfl⟩ := hfits.store
      obtain ⟨rfl, rfl, hnamed⟩ := h
      obtain rfl : a = (d.serve mint (.getByEmail email')).1 := hreplied _ rfl
      rcases Directory.serve_getByEmail_cases mint d email' with hnone | ⟨u, hu⟩
      · rw [hnone]
        exact Turn.leadsTo_finished (.of_missed hnamed)
      · rw [hu]
        simp only [Stage.turn, populate_inline hw hinline]
        exact Turn.leadsTo_stage ⟨rfl, (Directory.serve_getByEmail_ok hd hu).2⟩
  | awaitWrite u n p? =>
      obtain rfl := hfits.granted
      cases p? with
      | none => exact h.elim
      | some p =>
          -- No invalidation has come since the user was read, so that the write-back is let in.
          obtain ⟨rfl, hmends⟩ := h
          simp only [Stage.turn, if_neg (Nat.not_lt.mpr (hstamps u.id))]
          exact Turn.leadsTo_stage hmends
  | writeEntry u p? =>
      obtain ⟨c, rfl⟩ := hfits.cache
      obtain ⟨a, rfl⟩ : ∃ a, c = .ok a := hlearnt
      cases p? with
      | none => exact h.elim
      | some p =>
          simp only [Stage.turn]
          split
          · rename_i hempty
            exact endWrite_mends h fun he hne => absurd (he.symm.trans hempty) hne
          · exact Turn.leadsTo_stage h
  | writeIndex u p? =>
      obtain ⟨c, rfl⟩ := hfits.cache
      have hnamed : u.email = email → named = some u.id := hlearnt
      cases p? with
      | none => exact h.elim
      | some p =>
          simp only [Stage.turn]
          split
          · exact endWrite_mends h fun he _ => hnamed he
          · exact endWrite_mends h fun he _ => hnamed he
  | dropIndex email' afterwards =>
      obtain ⟨c, rfl⟩ := hfits.cache
      have hnamed : named = none := hlearnt
      cases afterwards with
      | lookUp email'' n =>
          obtain ⟨rfl, rfl, rfl⟩ := h
          exact Turn.leadsTo_stage ⟨rfl, rfl, hnamed⟩
      | answer emails a => exact h.elim
  | _ => exact h.elim

theorem Stage.Mends.exchanged {c : MemoryCache} {now n : Nat} {q : CacheRequest}
    (h : st.Mends email clock (c.named n email)) (hq : st.request w = .cache q)
    (hnow : c.named now email = c.named n email)
    (hlive : n < now + min w.lifetime c.maxLifetime) :
    st.Mends email clock ((c.serve now q).2.named n email) ∧
      st.Learnt email ((c.serve now q).2.named n email) (.cache (c.serve now q).1) := by
  cases st with
  | readEntry id m p =>
      cases hq
      exact ⟨h, trivial⟩
  | readIndex email' m =>
      cases hq
      obtain ⟨rfl, hm⟩ := h
      exact ⟨⟨rfl, hm⟩, (c.indexRead_serve now email').trans hnow⟩
  | writeEntry u p? =>
      cases hq
      refine ⟨?_, _, rfl⟩
      simp only [MemoryCache.serve, MemoryCache.named_set_user]
      exact h
  | writeIndex u p? =>
      cases hq
      have hnamed : (c.serve now (.set (CacheKey.email u.email) (Codec.uuid.toBytes u.id)
          w.lifetime)).2.named n email = if email = u.email then some u.id else c.named n email :=
        c.named_set_email u.id hlive
      rw [hnamed]
      refine ⟨?_, fun he => if_pos he.symm⟩
      cases p? with
      | none => exact h.elim
      | some p =>
          cases p with
          | answer => exact h
          | amend patch => exact h.elim
          | confirm email' m =>
              obtain ⟨he, hm, hid⟩ := h
              exact ⟨he, hm, by rw [hid, ite_self]⟩
  | dropIndex email' afterwards =>
      cases hq
      cases afterwards with
      | lookUp email'' m =>
          obtain ⟨rfl, hm⟩ := h
          exact ⟨⟨rfl, hm⟩, c.named_remove_email.trans (if_pos rfl)⟩
      | answer emails a => exact h.elim
  | dropEntry id emails a => exact h.elim
  | readReplaced u => exact h.elim
  | readDoomed id => exact h.elim
  | _ => cases hq

theorem Stage.learnt_of_ne (hr : ∀ c, r ≠ .cache c) : st.Learnt email named r := by
  cases r with
  | cache c => exact absurd rfl (hr c)
  | store a => cases st <;> trivial
  | granted => cases st <;> trivial

end Turns

namespace System

variable {w : Wiring} {mint : Mint} {s s' : System} {es E : List Event} {d : Directory}
  {t u : TaskId} {email : String} {n : Nat} {a : StoreReply} {o : Sources}

/-- Whether no entry expires until a time, those included that are still to be written. -/
structure Lasting (w : Wiring) (n : Nat) (s : System) : Prop where
  entries : ∀ key, s.cache.get? n key = s.cache.get? s.now key
  fresh : n < s.now + min w.lifetime s.cache.maxLifetime

theorem Step.cache_cases (hs : Step w mint s es s') (hes : ∀ e ∈ es, e.Succeeds s) :
    s'.cache = s.cache ∨ ∃ t st q, s.tasks t = some ⟨st, .ready⟩ ∧ st.request w = .cache q ∧
      s'.cache = (s.cache.serve s.now q).2 ∧ s'.now = s.now := by
  cases hs with
  | exchange ht hq => exact Or.inr ⟨_, _, _, ht, hq, rfl, rfl⟩
  | turn ht => exact Or.inl (cache_turn _ _ _ _)
  | cancel ht => exact Or.inl (cache_cancel _ _ _)
  | evict key => exact (hes _ (List.mem_singleton_self _)).elim
  | meddle key bytes lifetime => exact (hes _ (List.mem_singleton_self _)).elim
  | _ => exact Or.inl rfl

theorem Step.lasting (hs : Step w mint s es s') (hes : ∀ e ∈ es, e.Succeeds s)
    (hle : s'.now ≤ n) (h : s.Lasting w n) : s'.Lasting w n := by
  rcases hs.cache_cases hes with hcache | ⟨t, st, q, ht, hq, hcache, hnow⟩
  · constructor
    · intro key
      rw [hcache]
      exact MemoryCache.get?_eq_between hs.now_le hle (h.entries key)
    · rw [hcache]
      exact Nat.lt_of_lt_of_le h.fresh (Nat.add_le_add_right hs.now_le _)
  · rw [hnow] at hle
    constructor
    · rw [hcache, hnow]
      refine MemoryCache.get?_serve h.entries hle ?_
      rintro key bytes lifetime rfl
      rw [Stage.lifetime_of_set hq]
      exact h.fresh
    · rw [hcache, hnow, MemoryCache.maxLifetime_serve]
      exact h.fresh

theorem Looking.eq_of_tasks (h : s.Looking w d o t email) (hinline : w.isInline = true)
    {p : Process} (hu : s.tasks u = some p) : u = t := by
  by_contra hne
  rw [h.inline hinline u hne] at hu
  cases hu

theorem Looking.clock_eq (h : s.Looking w d o t email) (hs : Step w mint s es s') :
    s'.fences.clock = s.fences.clock := by
  rcases hs.tick_or_not h.orderly with ⟨hclock, -⟩ | ⟨u, id, emails, a, hu, -⟩
  · exact hclock
  · by_cases hut : u = t
    · subst hut
      exact (h.reads _ hu).1.elim
    · exact (h.alone u _ hu fun he => hut (Option.some.inj he)).elim

/-- Whether a lookup goes on in the inline mode, and nothing expires until a time. -/
structure Mending (w : Wiring) (mint : Mint) (d : Directory) (E : List Event) (t : TaskId)
    (email : String) (n : Nat) (s : System) : Prop where
  looking : s.Looking w d (present mint d E t) t email
  inline : w.isInline = true
  lasting : s.Lasting w n
  mends : ∀ p, s.tasks t = some p → p.Mends email s.fences.clock (s.cache.named n email)

namespace Mending

theorem turn (h : s.Mending w mint d E t email n) (hw : w.isNone = false) (hd : d.Sound mint)
    {st : Stage} {r : Reply} (ht : s.tasks t = some ⟨st, .replied r⟩) :
    (st.turn w s.fences r).LeadsTo (Stage.Mends email s.fences.clock (s.cache.named n email))
      (Mended email (s.cache.named n email)) fun _ _ => True := by
  obtain ⟨hst, hlearnt⟩ := h.mends _ ht
  exact hst.turn hw h.inline hd h.looking.orderly.stamps (h.looking.orderly.fits _ _ ht _ rfl)
    ((h.looking.reads _ ht).2 _ rfl) (hlearnt _ rfl)

theorem mends_step (h : s.Mending w mint d E t email n) (hw : w.isNone = false)
    (hd : d.Sound mint) (hs : Step w mint s es s') (hes : ∀ e ∈ es, e.Succeeds s)
    (hbegan : ∀ t j, .began t j ∉ es) {p : Process} (hp : s'.tasks t = some p) :
    p.Mends email s'.fences.clock (s'.cache.named n email) := by
  have hnow : s.cache.named s.now email = s.cache.named n email := by
    simp only [MemoryCache.named, h.lasting.entries]
  have hclock := h.looking.clock_eq hs
  have hexchanged : ∀ {st sd q}, s.tasks t = some ⟨st, sd⟩ → st.request w = .cache q →
      Process.Mends email s.fences.clock ((s.cache.serve s.now q).2.named n email)
        ⟨st, .replied (.cache (s.cache.serve s.now q).1)⟩ := by
    intro st sd q ht hq
    obtain ⟨hst, hlearnt⟩ := (h.mends _ ht).1.exchanged hq hnow h.lasting.fresh
    refine ⟨hst, ?_⟩
    rintro r ⟨⟩
    exact hlearnt
  have hstays : ∀ {st sd sd'}, s.tasks t = some ⟨st, sd⟩ →
      (∀ r, sd' = .replied r → ∀ c, r ≠ .cache c) →
      Process.Mends email s.fences.clock (s.cache.named n email) ⟨st, sd'⟩ :=
    fun ht hsd => ⟨(h.mends _ ht).1, fun r hr => Stage.learnt_of_ne (hsd r hr)⟩
  cases hs with
  | begin hj => exact absurd (List.mem_singleton_self _) (hbegan _ _)
  | reject e => exact h.mends p hp
  | exchange ht hq =>
      obtain rfl := h.looking.eq_of_tasks h.inline ht
      rw [tasks_setTask, if_pos rfl] at hp
      cases hp
      exact hexchanged ht hq
  | @fail u st sd q e ht hq =>
      obtain rfl := h.looking.eq_of_tasks h.inline ht
      -- An exchange that fails without a fault is a read of what the cache does not have.
      have herror : .error e = (s.cache.serve s.now q).1 := hes _ (List.mem_singleton_self _)
      have hp' := hexchanged ht hq
      rw [MemoryCache.serve_of_error herror.symm, ← herror] at hp'
      rw [tasks_setTask, if_pos rfl] at hp
      cases hp
      exact hp'
  | serve ht hq =>
      obtain rfl := h.looking.eq_of_tasks h.inline ht
      rw [tasks_setTask, if_pos rfl] at hp
      cases hp
      refine hstays ht ?_
      rintro r ⟨⟩ c ⟨⟩
  | refuse ht hq he => exact (hes _ (List.mem_singleton_self _)).elim
  | @ask u st id ht hq =>
      obtain rfl := h.looking.eq_of_tasks h.inline ht
      rw [tasks_setTask, if_pos rfl] at hp
      cases hp
      rw [hclock]
      refine hstays ht ?_
      rintro r hr c rfl
      split at hr <;> cases hr
  | turn ht =>
      obtain rfl := h.looking.eq_of_tasks h.inline ht
      rw [h.looking.orderly.tidy.tasks_turn ht] at hp
      obtain ⟨hnext, hsd⟩ := process?_eq_some hp
      rw [hclock, cache_turn]
      refine ⟨(h.turn hw hd ht).stage _ hnext, ?_⟩
      rw [hsd]
      rintro r ⟨⟩
  | cancel ht => exact (hes _ (List.mem_singleton_self _)).elim
  | evict key => exact (hes _ (List.mem_singleton_self _)).elim
  | meddle key bytes lifetime => exact (hes _ (List.mem_singleton_self _)).elim
  | elapse ms => exact h.mends p hp

theorem step (h : s.Mending w mint d E t email n) (hw : w.isNone = false) (hd : d.Sound mint)
    (hs : Step w mint s es s') (hes : ∀ e ∈ es, e.Succeeds s) (hlone : Undisturbed es)
    (hsub : es ⊆ E) (hle : s'.now ≤ n) : s'.Mending w mint d E t email n where
  looking := hs.looking hw hd hlone (h.looking.supplies hsub hlone.inService) h.looking
  inline := h.inline
  lasting := hs.lasting hes hle h.lasting
  mends _ hp := h.mends_step hw hd hs hes hlone.lone hp

theorem mended (h : s.Mending w mint d E t email n) (hw : w.isNone = false) (hd : d.Sound mint)
    (hs : Step w mint s es s') (hr : .returned t a ∈ es) :
    Mended email (s'.cache.named n email) a := by
  obtain ⟨st, r, ht, hnext, -, rfl⟩ := hs.of_returned hr
  rw [cache_turn]
  exact (h.turn hw hd ht).finished a hnext

end Mending

theorem FaultlessRun.mended (h : FaultlessRun w mint s es s') (hw : w.isNone = false)
    (hd : d.Sound mint) (hlone : Undisturbed es) (hsub : es ⊆ E)
    (hs : s.Mending w mint d E t email n) (hle : s'.now ≤ n) :
    s'.Mending w mint d E t email n ∧
      ∀ a, .returned t a ∈ es → s'.tasks t = none ∧ Mended email (s'.cache.named n email) a := by
  induction h with
  | refl => exact ⟨hs, by simp⟩
  | @step x x' es₁ es₂ h hx hes ih =>
      obtain ⟨hmending, hdone⟩ := ih (hlone.of_subset (List.subset_append_left _ _))
        (List.append_subset.mp hsub).1 (Nat.le_trans hx.now_le hle)
      refine ⟨hmending.step hw hd hx hes (hlone.of_subset (List.subset_append_right _ _))
        (List.append_subset.mp hsub).2 hle, ?_⟩
      intro a ha
      rcases List.mem_append.mp ha with ha | ha
      · obtain ⟨hgone, hmended⟩ := hdone a ha
        constructor
        · rcases hp : x'.tasks t with _ | p
          · rfl
          · have hnew := (hx.origin hmending.looking.orderly.tidy hp).eq_nextTask hgone
            exact absurd hnew (Nat.ne_of_lt hmending.looking.named)
        · rcases hx.cache_cases hes with hcache | ⟨u, st, q, hu, -⟩
          · rw [hcache]
            exact hmended
          · obtain rfl := hmending.looking.eq_of_tasks hmending.inline hu
            rw [hgone] at hu
            cases hu
      · exact ⟨hx.tasks_of_returned hmending.looking.orderly.tidy ha, hmending.mended hw hd hx ha⟩

end System

end UserDirectory
