import UserDirectory.Proofs.Cached.Replacement

namespace UserDirectory

open UserDirectory.Json

variable {mint : Mint} {w : Wiring} {f : Fences} {d : Directory} {email : String} {a : StoreReply}

/-- Whether a reply to a lookup by email is right: it says that nobody has the email exactly if
that is so, and names a user that has it otherwise. -/
structure Directory.Finds (d : Directory) (email : String) (a : StoreReply) : Prop where
  notFound : a = .error (.emailNotFound email) ↔ ∀ u ∈ d.currentUsers, u.email ≠ email
  found : a ≠ .error (.emailNotFound email) →
    ∃ u ∈ d.currentUsers, u.email = email ∧ a = .ok (.user u)

theorem Directory.Sound.finds (h : d.Sound mint) (ha : d.Conforms mint (.getByEmail email) a) :
    d.Finds email a where
  notFound := by
    rw [ha.1, h.serve_getByEmail_eq_error]
    exact forall_congr' fun u => by rw [h.mem_currentUsers_iff]
  found hne := by
    obtain ⟨u, rfl, hget, he⟩ := ha.2 hne
    exact ⟨u, h.mem_currentUsers_iff.mpr (view_of_serve (q := .get u.id) h trivial hget), he, rfl⟩

section Modes

variable {id : Uuid} {u v : User} {n m : Nat} {p : Purpose} {q : Option Purpose} {st st' : Stage}
  {r : Reply}

theorem populate_inline (hw : w.isNone = false) (hinline : w.isInline = true) :
    populate w f id u n p = { next := .stage (.awaitWrite u n (some p)), fences := f } := by
  simp only [populate, hw, hinline, Bool.false_eq_true, if_false, if_true]

theorem deliver_ne_awaitWrite : (deliver w f id u p).next ≠ .stage (.awaitWrite v m q) := by
  cases p with
  | answer => exact Next.noConfusion
  | amend patch =>
      simp only [deliver, Next.save]
      split <;> simp
  | confirm email started =>
      simp only [deliver]
      split <;> simp

theorem isInline_of_populate (h : (populate w f id u n p).next = .stage (.awaitWrite v m q)) :
    w.isInline = true := by
  by_contra hinline
  rw [Bool.not_eq_true] at hinline
  simp only [populate, hinline, Bool.false_eq_true, if_false] at h
  split at h
  · exact deliver_ne_awaitWrite h
  · exact deliver_ne_awaitWrite h

theorem Stage.Reads.isInline {o : Sources} {x : StoreRequest} (hst : st.Reads o x)
    (hr : r.Fits (st.request w)) (hnext : (st.turn w f r).next = .stage st')
    (hfence : st'.fenced? ≠ none) : st.fenced? ≠ none ∨ w.isInline = true := by
  cases (turn_leadsTo st hr).stage st' hnext with
  | hit hu hs => cases hs <;> exact absurd rfl hfence
  | fetched hs => cases hs <;> exact absurd rfl hfence
  | populating => exact Or.inr (isInline_of_populate hnext)
  | found => exact Or.inr (isInline_of_populate hnext)
  | admitted hn => exact Or.inl (Option.some_ne_none _)
  | skipped hn hs => exact Or.inl (Option.some_ne_none _)
  | entryWritten he => exact Or.inl (Option.some_ne_none _)
  | written hs => exact Or.inl (Option.some_ne_none _)
  | indexWritten hs => exact Or.inl (Option.some_ne_none _)
  | saved => exact hst.elim
  | deleted => exact hst.elim
  | ticked => exact hst.elim
  | dropped => exact hst.elim
  | _ => exact absurd rfl hfence

theorem spawned_eq_none (hw : w.isNone = false) (hinline : w.isInline = true)
    (hr : r.Fits (st.request w)) : (st.turn w f r).spawned = none := by
  rcases hspawned : (st.turn w f r).spawned with _ | st'
  · rfl
  · obtain ⟨u, n, rfl, hspawns⟩ := (turn_leadsTo st hr).spawned st' hspawned
    cases hspawns with
    | fetched => simp only [Stage.turn, populate_inline hw hinline, reduceCtorEq] at hspawned
    | found => simp only [Stage.turn, populate_inline hw hinline, reduceCtorEq] at hspawned

end Modes

/-- Whether an event is the start of a job, a refusal of the store, or a write of the cache by
somebody else. -/
def Event.isDisturbance : Event → Bool
  | .began _ _ | .refused _ _ _ | .meddled _ => true
  | _ => false

namespace System

variable {s s' : System} {es es' E : List Event} {t : TaskId} {o : Sources}

/-- Whether the entries of users that are live and can be read are as the store shows the users. -/
def Truthful (d : Directory) (s : System) : Prop :=
  ∀ id bs u, s.cache.get? s.now (CacheKey.user id) = some bs → User.codec.ofEntry bs = .ok u →
    d.view id = some u

/-- Whether no call is being served. Write-backs may go on, but the fences keep out those of users
that have changed since they were read; in the inline mode there are none. -/
structure AtRest (w : Wiring) (s : System) : Prop where
  orderly : Orderly w s
  alone : s.Alone none
  inline : w.isInline = true → ∀ t, s.tasks t = none
  fenced : s.Fenced fun u => s.store.view u.id ≠ some u

/-- Whether a task looks an email up, alone but for write-backs, while the store is as in `d`. -/
structure Looking (w : Wiring) (d : Directory) (o : Sources) (t : TaskId) (email : String)
    (s : System) : Prop where
  orderly : Orderly w s
  alone : s.Alone (some t)
  inline : w.isInline = true → ∀ u, u ≠ t → s.tasks u = none
  contents : s.store.contents = d.contents
  fenced : s.Fenced fun u => d.view u.id ≠ some u
  truthful : s.Truthful d
  named : t < s.nextTask
  reads : ∀ p, s.tasks t = some p → p.Reads w o (.getByEmail email)
  /-- The task waits for a fence only in the inline mode, and for nothing else in line. -/
  waits : ∀ p, s.tasks t = some p →
    (p.stage.fenced? ≠ none → w.isInline = true) ∧ (p.standing = .queued → p.stage.awaited? ≠ none)

theorem Step.now_le (hs : Step w mint s es s') : s.now ≤ s'.now := by
  cases hs with
  | elapse ms => exact Nat.le_add_right _ _
  | turn ht => exact Nat.le_of_eq (now_turn _ _ _ _).symm
  | cancel ht => exact Nat.le_of_eq (now_cancel _ _ _).symm
  | _ => exact Nat.le_refl _

theorem Step.truthful (hs : Step w mint s es s') (hquiet : ∀ key, .meddled key ∉ es)
    (hfenced : s.Fenced fun u => d.view u.id ≠ some u) (h : s.Truthful d) : s'.Truthful d := by
  intro id bs u hget hu
  obtain ⟨e, he, rfl, hlt⟩ := MemoryCache.entry?_of_get? hget
  rcases hs.userEntry_cases hquiet he with he | ⟨t, v, p, ht, rfl, hbytes⟩
  · have hlive := Nat.lt_of_le_of_lt hs.now_le hlt
    exact h id _ u (MemoryCache.get?_of_entry? he hlive) hu
  · rw [hbytes, v.ofEntry_toBytes] at hu
    cases hu
    exact not_not.mp (hfenced t _ ht).1

namespace Looking

theorem supplies (h : s.Looking w d o t email) (hes : es ⊆ E)
    (hrefused : ∀ t q e, .refused t q e ∉ es) : s.Supplies mint es t (present mint d E t) where
  entry hget hu := h.truthful _ _ _ hget hu
  index hmem := ⟨_, _, hes hmem, rfl⟩
  reply _ _ := (Directory.serve_congr mint h.contents _).1
  refusal _ hmem := absurd hmem (hrefused _ _ _)

theorem sound (h : s.Looking w d o t email) (hd : d.Sound mint) : s.store.Sound mint :=
  hd.of_identities (Directory.identities_of_contents h.contents)
    (Nat.le_of_eq (Directory.drawn_of_contents h.contents).symm)

theorem waits_step (h : s.Looking w d o t email) (hs : Step w mint s es s') {p : Process}
    (hp : s'.tasks t = some p) :
    (p.stage.fenced? ≠ none → w.isInline = true) ∧
      (p.standing = .queued → p.stage.awaited? ≠ none) := by
  have hlt := h.named
  cases hs.origin h.orderly.tidy hp with
  | same ht => exact h.waits _ ht
  | begun hj ht => exact absurd ht (Nat.ne_of_lt hlt)
  | spawned hu hst ht => exact absurd ht (Nat.ne_of_lt hlt)
  | turned ht hst =>
      refine ⟨fun hfence => ?_, by simp⟩
      have hreads := (h.reads _ ht).1
      exact (hreads.isInline (h.orderly.fits _ _ ht _ rfl) hst hfence).elim (h.waits _ ht).1 id
  | queued ht ha => exact ⟨(h.waits _ ht).1, fun _ => ha⟩
  | granted ht => exact ⟨(h.waits _ ht).1, by simp⟩
  | exchanged ht => exact ⟨(h.waits _ ht).1, by simp⟩
  | failed ht => exact ⟨(h.waits _ ht).1, by simp⟩
  | served ht => exact ⟨(h.waits _ ht).1, by simp⟩
  | refused ht => exact ⟨(h.waits _ ht).1, by simp⟩

theorem inline_step (h : s.Looking w d o t email) (hs : Step w mint s es s')
    (hw : w.isNone = false) (hbegan : ∀ t j, .began t j ∉ es) (hinline : w.isInline = true)
    {u : TaskId} (hu : u ≠ t) : s'.tasks u = none := by
  have hnone := h.inline hinline u hu
  rcases hp : s'.tasks u with _ | p
  · rfl
  · cases hs.origin h.orderly.tidy hp with
    | begun hj hn hes => exact absurd (hes ▸ List.mem_singleton_self _) (hbegan _ _)
    | spawned hv hst hn =>
        rw [spawned_eq_none hw hinline (h.orderly.fits _ _ hv _ rfl)] at hst
        cases hst
    | same ht => cases hnone.symm.trans ht
    | turned ht => cases hnone.symm.trans ht
    | queued ht => cases hnone.symm.trans ht
    | granted ht => cases hnone.symm.trans ht
    | exchanged ht => cases hnone.symm.trans ht
    | failed ht => cases hnone.symm.trans ht
    | served ht => cases hnone.symm.trans ht
    | refused ht => cases hnone.symm.trans ht

end Looking

/-- Whether no job is started, the store is in service and nobody else writes the cache. -/
structure Undisturbed (es : List Event) : Prop where
  lone : ∀ t j, .began t j ∉ es
  inService : ∀ t q e, .refused t q e ∉ es
  quiet : ∀ key, .meddled key ∉ es

theorem undisturbed_iff : Undisturbed es ↔ ∀ e ∈ es, e.isDisturbance = false := by
  constructor
  · intro h e he
    cases e with
    | began t j => exact absurd he (h.lone t j)
    | refused t q e => exact absurd he (h.inService t q e)
    | meddled key => exact absurd he (h.quiet key)
    | _ => rfl
  · exact fun h => ⟨fun _ _ hmem => Bool.noConfusion (h _ hmem),
      fun _ _ _ hmem => Bool.noConfusion (h _ hmem), fun _ hmem => Bool.noConfusion (h _ hmem)⟩

instance (es : List Event) : Decidable (Undisturbed es) := decidable_of_iff' _ undisturbed_iff

theorem Undisturbed.of_subset (h : Undisturbed es) (hsub : es' ⊆ es) : Undisturbed es' where
  lone t j hmem := h.lone t j (hsub hmem)
  inService t q e hmem := h.inService t q e (hsub hmem)
  quiet key hmem := h.quiet key (hsub hmem)

theorem Undisturbed.append (h : Undisturbed es) (h' : Undisturbed es') :
    Undisturbed (es ++ es') :=
  undisturbed_iff.mpr
    (List.forall_mem_append.mpr ⟨undisturbed_iff.mp h, undisturbed_iff.mp h'⟩)

theorem undisturbed_turned {st : Stage} {r : Reply} {n : Next} :
    Undisturbed (.turned t st r :: n.events t) := by
  refine undisturbed_iff.mpr ?_
  intro e he
  rcases Next.of_mem_turned he with rfl | ⟨a, -, rfl⟩
  · rfl
  · rfl

theorem Step.looking (hs : Step w mint s es s') (hw : w.isNone = false) (hd : d.Sound mint)
    (hlone : Undisturbed es) (hsrc : s.Supplies mint es t o) (h : s.Looking w d o t email) :
    s'.Looking w d o t email where
  orderly := hs.orderly h.orderly
  alone := hs.alone h.orderly hlone.lone h.alone
  inline hinline _ hu := h.inline_step hs hw hlone.lone hinline hu
  contents := (hs.contents_of_reads h.alone h.reads).trans h.contents
  fenced := hs.fenced h.orderly (h.sound hd)
    (fun u hu => by rwa [Directory.view_congr h.contents]) h.fenced
  truthful := hs.truthful hlone.quiet h.fenced h.truthful
  named := Nat.lt_of_lt_of_le h.named hs.nextTask_le
  reads _ hp := hs.reads h.orderly.tidy hsrc h.named h.reads hp
  waits _ hp := h.waits_step hs hp

theorem Run.looking (h : Run w mint s es s') (hw : w.isNone = false) (hd : d.Sound mint)
    (hlone : Undisturbed es) (hs : s.Looking w d o t email)
    (hsrc : ∀ (x : System) es', x.Looking w d o t email → es' ⊆ es → x.Supplies mint es' t o) :
    s'.Looking w d o t email := by
  induction h with
  | refl => exact hs
  | @step x x' es es' h hx ih =>
      have hbefore := ih (hlone.of_subset (List.subset_append_left _ _))
        fun y es₁ hy hes => hsrc y es₁ hy (List.subset_append_of_subset_left _ hes)
      exact hx.looking hw hd (hlone.of_subset (List.subset_append_right _ _))
        (hsrc _ _ hbefore (List.subset_append_right _ _)) hbefore

theorem AtRest.looking (h : s.AtRest w) (hw : w.isNone = false) (hd : s.store.Sound mint)
    (htrue : s.Truthful s.store) {st : Stage}
    (hst : (Job.request (.getByEmail email)).start w s.fences = .stage st) (o : Sources) :
    (s.spawn st).Looking w s.store o s.nextTask email := by
  have hstep : Step w mint s _ (s.spawn st) := .begin hst
  have hother : ∀ {u p}, (s.spawn st).tasks u = some p → u ≠ s.nextTask → s.tasks u = some p := by
    intro u p hp hu
    rwa [tasks_spawn, if_neg hu] at hp
  have hown : ∀ {p}, (s.spawn st).tasks s.nextTask = some p → p = ⟨st, .ready⟩ := by
    intro p hp
    rw [tasks_spawn, if_pos rfl] at hp
    exact (Option.some.inj hp).symm
  have hfree := (start_starts hst).free
  constructor
  · exact hstep.orderly h.orderly
  · intro u p hp hu
    exact h.alone u p (hother hp fun he => hu (congrArg some he)) (by simp)
  · intro hinline u hu
    rw [tasks_spawn, if_neg hu]
    exact h.inline hinline u
  · rfl
  · exact hstep.fenced h.orderly hd (fun _ hu => hu) h.fenced
  · exact htrue
  · exact Nat.lt_succ_self _
  · intro p hp
    obtain rfl := hown hp
    exact ((start_starts hst).reads hw rfl fun hwrite => hwrite).process (by simp)
  · intro p hp
    obtain rfl := hown hp
    cases start_starts hst with
    | readIndex => exact ⟨fun hfence => absurd rfl hfence, by simp⟩
    | fetchByEmail => exact ⟨fun hfence => absurd rfl hfence, by simp⟩

/-- What a lookup returns is right. -/
theorem Run.finds (h : Run w mint s es s') (hw : w.isNone = false) (hd : d.Sound mint)
    (hlone : Undisturbed es) (hs : s.Looking w d (present mint d es t) t email)
    (hr : .returned t a ∈ es) : d.Finds email a := by
  obtain ⟨es₁, es₂, rfl⟩ := List.append_of_mem hr
  obtain ⟨e, es₃, x, y, rfl, hx, hstep, -⟩ := h.split_returned rfl
  have hsub : es₃ ⊆ es₃ ++ [e] ++ .returned t a :: es₂ := by simp
  have hbefore := hlone.of_subset hsub
  have hlooking := hx.looking hw hd hbefore hs fun y es' hy hes =>
    hy.supplies (List.Subset.trans hes hsub) (hbefore.of_subset hes).inService
  exact hd.finds (answers_conforms hd
    (hstep.answers hlooking.orderly.tidy hlooking.reads (by simp)))

end System

end UserDirectory
