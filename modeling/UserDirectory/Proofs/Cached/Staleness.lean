import UserDirectory.Proofs.Cached.Amendment
import UserDirectory.Proofs.Cached.Clearance
import UserDirectory.Proofs.Cached.Schedule

/-!
How long the cache may give what has been superseded. When a write has returned, what it supersedes
is not put into the cache any more, even if no entry could be dropped; what is there by then is gone
when its lifetime is over.
-/

namespace UserDirectory

open UserDirectory.Json

def Event.duration : Event → Nat
  | .elapsed ms => ms
  | _ => 0

def elapsed : List Event → Nat
  | [] => 0
  | e :: rest => e.duration + elapsed rest

theorem elapsed_append (es es' : List Event) : elapsed (es ++ es') = elapsed es + elapsed es' := by
  induction es with
  | nil => simp [elapsed]
  | cons e rest ih => rw [List.cons_append, elapsed, elapsed, ih, Nat.add_assoc]

/-- The task that gets something out of the cache with an event, and under which key. -/
def Event.hit? : Event → Option (TaskId × String)
  | .exchanged t (.get key) (.ok (.bytes _)) => some (t, key)
  | _ => none

theorem Event.hit?_eq_some {e : Event} {t : TaskId} {key : String} (h : e.hit? = some (t, key)) :
    ∃ bs, e = .exchanged t (.get key) (.ok (.bytes bs)) := by
  unfold hit? at h
  split at h
  · rename_i bs
    cases h
    exact ⟨bs, rfl⟩
  · cases h

namespace System

variable {w : Wiring} {mint : Mint} {s s' : System} {es es₁ es₂ es₃ es₄ E : List Event}
  {t r : TaskId} {d : Directory} {id : Uuid} {a : StoreAnswer} {j : Job} {m n : Nat}
  {q : StoreRequest} {bs : List UInt8} {u : User}

theorem Step.now_eq (hs : Step w mint s es s') : s'.now = s.now + elapsed es := by
  cases hs with
  | @turn t st r ht =>
      rw [now_turn]
      cases (st.turn w s.fences r).next <;> rfl
  | cancel ht =>
      rw [now_cancel]
      rfl
  | elapse ms => rfl
  | _ => rfl

theorem Run.now_eq (h : Run w mint s es s') : s'.now = s.now + elapsed es := by
  induction h with
  | refl => rfl
  | step h hx ih => rw [hx.now_eq, ih, elapsed_append, Nat.add_assoc]

theorem Step.maxLifetime_eq (hs : Step w mint s es s') :
    s'.cache.maxLifetime = s.cache.maxLifetime := by
  cases hs with
  | @exchange t st q ht hq => cases q <;> rfl
  | turn ht => rw [cache_turn]
  | cancel ht => rw [cache_cancel]
  | _ => rfl

/-- Whether no entry was written after the present time, or lives longer than the settings and a
cache of longest lifetime `m` allow. -/
structure Timely (w : Wiring) (m : Nat) (s : System) : Prop where
  maxLifetime : s.cache.maxLifetime = m
  written : ∀ {key e}, s.cache.entry? key = some e → e.written ≤ s.now
  lifetime : ∀ {key e}, s.cache.entry? key = some e → e.lifetime ≤ min w.lifetime m

theorem Step.timely (hs : Step w mint s es s') (hquiet : ∀ key, .meddled key ∉ es)
    (h : s.Timely w m) : s'.Timely w m where
  maxLifetime := hs.maxLifetime_eq.trans h.maxLifetime
  written := by
    intro key e he
    have hnow : s.now ≤ s'.now := Nat.le.intro hs.now_eq.symm
    rcases hs.entry?_cases hquiet he with he | ⟨t, st, bytes, lifetime, -, -, rfl⟩
    · exact Nat.le_trans (h.written he) hnow
    · exact hnow
  lifetime := by
    intro key e he
    rcases hs.entry?_cases hquiet he with he | ⟨t, st, bytes, lifetime, -, hq, rfl⟩
    · exact h.lifetime he
    · rw [Stage.lifetime_of_set hq, h.maxLifetime]

theorem Run.timely (h : Run w mint s es s') (hquiet : ∀ key, .meddled key ∉ es)
    (hs : s.Timely w m) : s'.Timely w m := by
  induction h with
  | refl => exact hs
  | step h hx ih =>
      exact hx.timely (fun key hk => hquiet key (List.mem_append_right _ hk))
        (ih fun key hk => hquiet key (List.mem_append_left _ hk))

theorem timely_start (w : Wiring) (d : Directory) (m : Nat) :
    Timely w m { store := d, cache := { maxLifetime := m } } where
  maxLifetime := rfl
  written he := by cases he
  lifetime he := by cases he

/-- Whether the store bears out an answer, and nothing that the answer supersedes will be written
to the cache any more. -/
def Shut (d : Directory) (id : Uuid) (a : StoreAnswer) (s : System) : Prop :=
  s.store.Confirms id a ∧ s.Fenced (d.Superseded id a)

theorem Stride.shut (hs : Stride w mint E d s es s') (h : s.Shut d id a) : s'.Shut d id a := by
  refine ⟨h.1.mono hs.grows, hs.step.fenced hs.coherent.orderly hs.coherent.sound ?_ h.2⟩
  intro u hu
  exact (hu.of_extends h.1 hs.limit_before hs.sound).ne_view h.1 hs.coherent.sound

theorem Coherent.shut (hc : Coherent w mint s) {emails : List String} {sd : Standing}
    (ht : s.tasks t = some ⟨.dropEntry id emails a, sd⟩) (hd : d.Sound mint)
    (hle : s.store.Extends d) : s.Shut d id a := by
  have hconfirms : s.store.Confirms id a := hc.confirmed t _ ht
  exact ⟨hconfirms,
    (hc.dropping t id emails a sd ht).1.of_imp fun u hu => hu.of_extends hconfirms hle hd⟩

/-- The duty of a task that writes: to shut the cache to what the write supersedes. -/
def shutting (d : Directory) (s : System) (q : StoreRequest) : Duty where
  request := q
  unserved := True
  reply _ := True
  dropped id a := s.Shut d id a

theorem Stride.furthers_shutting (hs : Stride w mint E d s es s') (t : TaskId) (q : StoreRequest) :
    s.Furthers mint es t (s.shutting d q) (s'.shutting d q) where
  request := rfl
  unserved _ _ := trivial
  reply _ _ _ := trivial
  dropped _ _ h := hs.shut h
  served _ _ _ := trivial
  refused _ _ := trivial
  dropping ht _ := hs.shut (hs.coherent.shut ht hs.sound hs.limit_before)

theorem Call.shut (c : Call w mint s es s' t j (.ok a)) (h : Course w mint s es s')
    (hw : w.isNone = false) (hj : j.IsWrite) (ha : j.Concerns id a) :
    c.next.Shut s'.store id a := by
  have hstride := c.stride h c.returning_subset
  obtain ⟨-, hperforms⟩ := c.performed h c.during_subset (fun _ => True)
    (y := fun x => x.shutting s'.store) (o := .lookups) hj (fun _ _ => rfl) trivial
    (fun _ => trivial) fun hx _ =>
      ⟨trivial, fun _ => rfl, fun _ => supplies_lookups .., fun _ _ _ => trivial,
        fun q _ => hx.furthers_shutting t q⟩
  have ho := hstride.coherent.orderly
  obtain ⟨q, hq, hwrites⟩ := c.step.writes_of_performs ho hperforms c.returned
  obtain ⟨st, x, ht, hnext, -, -⟩ := c.step.of_returned c.returned
  obtain ⟨-, hdropped⟩ := (ho.tidy.results ht hnext).writes (hwrites _ ht) hw <| by
    rintro id emails b rfl
    exact hstride.coherent.shut ht hstride.sound hstride.limit_before
  obtain ⟨id', hid', hshut⟩ := hdropped a id rfl (hq.concerns ha)
  obtain rfl := (hq.concerns ha).unique hid'
  exact hstride.shut hshut

/-- Whether the cache is shut to what an answer supersedes, and has none of that from after a
time. -/
structure Fading (d : Directory) (id : Uuid) (a : StoreAnswer) (n : Nat) (s : System) : Prop where
  shut : s.Shut d id a
  entries : ∀ {e u}, s.cache.entry? (CacheKey.user id) = some e →
    User.codec.ofEntry e.bytes = .ok u → d.Superseded id a u → e.written ≤ n

theorem Stride.fading (hs : Stride w mint E d s es s') (h : s.Fading d id a n) :
    s'.Fading d id a n where
  shut := hs.shut h.shut
  entries := by
    intro e u he hu hsup
    rcases hs.step.userEntry_cases hs.quiet he with he | ⟨t, v, p, ht, -, hbytes⟩
    · exact h.entries he hu hsup
    · rw [hbytes, v.ofEntry_toBytes] at hu
      cases hu
      exact absurd hsup (h.shut.2 t _ ht).1

theorem Step.entry_of_exchanged {key : String}
    (hs : Step w mint s [.exchanged t (.get key) (.ok (.bytes bs))] s') :
    ∃ e, s.cache.entry? key = some e ∧ e.bytes = bs ∧ s.now < e.written + e.lifetime := by
  obtain ⟨-, ⟨e, he⟩ | hr⟩ := hs.of_exchanged (List.mem_singleton_self _)
  · cases he
  · simp only [MemoryCache.serve] at hr
    rcases hget : s.cache.get? s.now key with _ | bs'
    · rw [hget] at hr
      cases hr
    · rw [hget] at hr
      cases hr
      exact MemoryCache.entry?_of_get? hget

/-- When a write returns, nothing that it supersedes is in the cache from after that. -/
theorem Call.fading (c : Call w mint s es s' t j (.ok a)) (h : Course w mint s es s')
    (hw : w.isNone = false) (hj : j.IsWrite) (ha : j.Concerns id a) (hs : s.Timely w m) :
    c.next.Fading s'.store id a c.next.now where
  shut := c.shut h hw hj ha
  entries he _ _ := ((c.course_next h).run.timely (c.course_next h).quiet hs).written he

theorem Call.lt_of_hit (c : Call w mint s es s' t j (.ok a)) (h : Course w mint s es s')
    (hw : w.isNone = false) (hj : j.IsWrite) (ha : j.Concerns id a) (hs : s.Timely w m)
    (hlater : c.later = es₁ ++ .exchanged r (.get (CacheKey.user id)) (.ok (.bytes bs)) :: es₂)
    (hu : User.codec.ofEntry bs = .ok u) (hsup : s'.store.Superseded id a u) :
    elapsed es₁ < min w.lifetime m := by
  obtain ⟨x, y, hbefore, hhit, hafter⟩ := c.after.run.split_exchanged hlater
  have hcourse : Course w mint c.next
      (es₁ ++ .exchanged r (.get (CacheKey.user id)) (.ok (.bytes bs)) :: es₂) s' :=
    hlater ▸ c.after
  obtain ⟨hfirst, hrest⟩ := hcourse.of_append hbefore ((Run.single hhit).trans hafter)
  have hfading : x.Fading s'.store id a c.next.now :=
    hfirst.inv _ (List.Subset.refl _) h.coherent.sound hrest.extends_store Stride.fading
      (c.fading h hw hj ha hs)
  have htimely := hfirst.run.timely hfirst.quiet
    ((c.course_next h).run.timely (c.course_next h).quiet hs)
  obtain ⟨e, he, rfl, hlives⟩ := hhit.entry_of_exchanged
  -- The entry was written when the write had not returned yet, and it is alive when it is read.
  have hwritten := hfading.entries he hu hsup
  have hlifetime := htimely.lifetime he
  rw [hbefore.now_eq] at hlives
  omega

theorem Course.of_hit (h : Course w mint s es s') (hs : s.Timely w m)
    (hhit : es = es₁ ++ .exchanged r (.get (CacheKey.user id)) (.ok (.bytes bs)) :: es₂) :
    ∃ u ∈ s'.store.history id, User.codec.ofEntry bs = .ok u ∧ 0 < min w.lifetime m := by
  subst hhit
  obtain ⟨x, y, hbefore, hget, hafter⟩ := h.run.split_exchanged rfl
  obtain ⟨hfirst, hrest⟩ := h.of_append hbefore ((Run.single hget).trans hafter)
  obtain ⟨e, he, rfl, hlives⟩ := hget.entry_of_exchanged
  obtain ⟨u, hu, hread⟩ := hfirst.coherent.entries id e he
  have htimely := hbefore.timely hfirst.quiet hs
  have hwritten := htimely.written he
  have hlifetime := htimely.lifetime he
  exact ⟨u, (hrest.extends_store.history id).subset hu, hread, by omega⟩

theorem Course.lt_of_hit (h : Course w mint s es s') (hw : w.isNone = false) (hs : s.Timely w m)
    (hhit : es = es₁ ++ .exchanged r (.get (CacheKey.user id)) (.ok (.bytes bs)) :: es₂)
    (hu : User.codec.ofEntry bs = .ok u) (hreturned : es = es₃ ++ .returned t (.ok a) :: es₄)
    (hbegan : .began t j ∈ es₃) (ha : j.Concerns id a) (hsup : s'.store.Superseded id a u) :
    elapsed es₁ < elapsed es₃ + min w.lifetime m := by
  rcases List.append_eq_append_iff.mp (hhit.symm.trans hreturned) with
    ⟨l, hl, -⟩ | ⟨l, hl, hrest⟩
  · -- The cache has given it before the write has returned.
    obtain ⟨-, -, -, hpos⟩ := h.of_hit hs hhit
    rw [hl, elapsed_append]
    omega
  · rcases List.cons_eq_append_iff.mp hrest with ⟨-, heq⟩ | ⟨l', rfl, hlater⟩
    · cases heq
    · obtain ⟨es₅, es₆, rfl⟩ := List.append_of_mem hbegan
      have hcall : es = es₅ ++ .began t j :: (es₆ ++ .returned t (.ok a) :: es₄) := by
        simp [hreturned]
      obtain ⟨c, -, rfl⟩ := h.call hcall
      have hlt := c.lt_of_hit h hw ha.isWrite ha hs hlater hu hsup
      have hreturns : elapsed (.returned t (.ok a) :: l') = elapsed l' := by
        simp [elapsed, Event.duration]
      rw [hl, elapsed_append, hreturns]
      exact Nat.add_lt_add_left hlt _

/-- What the cache gives is a version of the user, and no write that supersedes it has returned
longer ago than entries live: the configured lifetime, or the longest that the cache allows. This
is so whatever runs beside, however long each step takes, and whatever exchanges with the cache
fail. -/
theorem staleness_bounded {cfg : UserCacheConfig} (hd : d.Reachable mint)
    (h : Run (some cfg) mint { store := d, cache := { maxLifetime := m } } es s)
    (hm : mint.Fresh s.store.drawn) (hquiet : ∀ key, .meddled key ∉ es)
    (hhit : es = es₁ ++ .exchanged r (.get (CacheKey.user id)) (.ok (.bytes bs)) :: es₂) :
    ∃ u ∈ s.store.history id, User.codec.ofEntry bs = .ok u ∧ u.id = id ∧
      ∀ {t j a es₃ es₄}, es = es₃ ++ .returned t (.ok a) :: es₄ → .began t j ∈ es₃ →
        j.Concerns id a → s.store.Superseded id a u →
        elapsed es₁ < elapsed es₃ + min (cfg.ttlSecs * 1000) m := by
  have hcourse := Course.of_run hd h hm hquiet
  have htimely := timely_start (some cfg) d m
  obtain ⟨u, hu, hread, -⟩ := hcourse.of_hit htimely hhit
  refine ⟨u, hu, hread, hcourse.coherent.sound.id_of_mem_history hu, ?_⟩
  intro t j a es₃ es₄ hreturned hbegan ha hsup
  exact hcourse.lt_of_hit rfl htimely hhit hread hreturned hbegan ha hsup

/-- All exchanges of a deletion with the cache time out, and half a second after it has returned
the cache still gives the user. -/
theorem staleness_bounded_of_lost_removal :
    let mint : Mint := fun n => .ofNat (n + 1)
    let u : User := { id := mint 1, versionId := mint 0, isLatestVersion := true }
    let removal : Event := .exchanged 3 (.remove (CacheKey.user u.id)) (.error .timeout)
    ∃ es₁ bs es₃ es₄ s, Run (some {}) mint { store := {}, cache := { maxLifetime := 1000 } }
        (es₁ ++ [.exchanged 4 (.get (CacheKey.user u.id)) (.ok (.bytes bs))]) s ∧
      User.codec.ofEntry bs = .ok u ∧ s.store.Superseded u.id .done u ∧
      es₁ ++ [.exchanged 4 (.get (CacheKey.user u.id)) (.ok (.bytes bs))] =
        es₃ ++ .returned 3 (.ok .done) :: es₄ ∧
      [.began 3 (.request (.delete u.id)), removal].Sublist es₃ ∧
      elapsed es₁ = 510 ∧ elapsed es₁ < elapsed es₃ + 1000 := by
  intro mint u removal
  obtain ⟨es, s, h, hquiet, hend⟩ := Run.of_any_rough (some {}) mint
    { store := {}, cache := { maxLifetime := 1000 } }
    ([RoughMove.move (.start (.request (.save {})))] ++ List.replicate 6 (.move (.advance 0)) ++
      [RoughMove.move (.start (.request (.get u.id)))] ++ List.replicate 4 (.move (.advance 1)) ++
      List.replicate 4 (.move (.advance 2)) ++ [RoughMove.elapse 10] ++
      [RoughMove.move (.start (.request (.delete u.id))), .fail 3 .timeout] ++
      List.replicate 5 (.move (.advance 3)) ++ [RoughMove.fail 3 .timeout, .move (.advance 3),
        .elapse 500, .move (.start (.request (.get u.id))), .move (.advance 4)])
    (fun x => x.2.store.drawn = 2 ∧ x.2.now = 510 ∧ x.2.store.history u.id = [u] ∧
      List.isSublist [.began 3 (.request (.delete u.id)), removal, .returned 3 (.ok .done)] x.1 ∧
      x.1.getLast?.bind Event.hit? = some (4, CacheKey.user u.id))
    (by decide +kernel)
  obtain ⟨hdrawn, hnow, hversions, hl, hhit⟩ := of_decide_eq_true hend
  obtain ⟨e, he, hkey⟩ := Option.bind_eq_some_iff.mp hhit
  obtain ⟨es₁, rfl⟩ := List.getLast?_eq_some_iff.mp he
  obtain ⟨bs, rfl⟩ := Event.hit?_eq_some hkey
  have hm : mint.Fresh s.store.drawn := by
    rw [hdrawn]
    decide +kernel
  obtain ⟨v, hv, hread, hid, hbound⟩ := staleness_bounded .empty h hm hquiet rfl
  obtain rfl : v = u := List.mem_singleton.mp (hversions ▸ hv)
  have hsplit : List.Sublist ([Event.began 3 (.request (.delete u.id)), removal] ++
      [Event.returned 3 (.ok .done)]) (es₁ ++ [_]) := List.isSublist_iff_sublist.mp hl
  obtain ⟨l, l', hes, hbegan, hreturned⟩ := List.append_sublist_iff.mp hsplit
  obtain ⟨l₁, l₂, rfl⟩ := List.append_of_mem (List.singleton_sublist.mp hreturned)
  rw [← List.append_assoc] at hes
  have hbegan := hbegan.trans (List.sublist_append_left l l₁)
  have hage : elapsed es₁ = 510 := by
    have helapsed : 510 = 0 + elapsed (es₁ ++ [_]) := hnow.symm.trans h.now_eq
    simpa [elapsed_append, elapsed, Event.duration] using helapsed.symm
  exact ⟨es₁, bs, l ++ l₁, l₂, s, h, hread, rfl, hes, hbegan, hage,
    hbound hes (hbegan.subset (List.mem_cons_self ..)) rfl rfl⟩

end System

end UserDirectory
