import UserDirectory.Proofs.Cached.Clearance
import UserDirectory.Proofs.Directory.Contents

namespace UserDirectory

open UserDirectory.Json

variable {w : Wiring} {q : StoreRequest}

namespace System

variable {mint : Mint} {s s' : System} {es E : List Event} {t : TaskId} {o : Option TaskId}
  {d d' : Directory} {a : StoreReply}

/-- Whether all tasks but one are write-backs. -/
def Alone (o : Option TaskId) (s : System) : Prop :=
  ∀ t p, s.tasks t = some p → some t ≠ o → p.stage.IsWriteBack

theorem Step.alone (hs : Step w mint s es s') (ho : Orderly w s)
    (hbegan : ∀ t j, .began t j ∉ es) (h : s.Alone o) : s'.Alone o := by
  intro t p hp ht
  rcases (hs.origin ho.tidy hp).stage_cases ho.tidy with
    ⟨sd, hst⟩ | ⟨j, -, hes, -⟩ | ⟨u, n, -, hst⟩ | ⟨st, r, st', hst, -, hsucc, rfl⟩
  · exact h t ⟨p.stage, sd⟩ hst ht
  · exact absurd (hes ▸ List.mem_singleton_self _) (hbegan _ _)
  · rw [hst]
    trivial
  · exact hsucc.isWriteBack (h _ _ hst ht)

theorem Alone.none (h : s.Alone (some t)) (ht : s.tasks t = none) : s.Alone none := by
  intro u p hp _
  refine h u p hp ?_
  rintro ⟨⟩
  rw [ht] at hp
  cases hp

theorem Step.store_of_alone (hs : Step w mint s es s') (h : s.Alone o)
    (ht : ∀ t q r, some t = o → .served t q r ∉ es) : s'.store = s.store := by
  rcases hs.store_cases with hsame | ⟨t, st, q, hst, hq, hes, -⟩
  · exact hsame
  · by_cases hto : some t = o
    · exact absurd (hes ▸ List.mem_singleton_self _) (ht t _ _ hto)
    · exact absurd hq (h _ _ hst hto).request_ne

theorem Step.contents_of_reads {x : Sources} (hs : Step w mint s es s') (h : s.Alone (some t))
    (hreads : ∀ p, s.tasks t = some p → p.Reads w x q) : s'.store.contents = s.store.contents := by
  rcases hs.store_cases with hsame | ⟨u, st, q', hst, hq', -, hstore⟩
  · rw [hsame]
  · by_cases hu : u = t
    · subst hu
      rw [hstore, Directory.contents_serve mint s.store ((hreads _ hst).1.not_isWrite hq')]
    · exact absurd hq' (h _ _ hst (by simpa using hu)).request_ne

/-- Whether no call is being served, and the cache has of users only what the store shows. -/
structure Settled (s : System) : Prop where
  alone : s.Alone none
  rid : s.Rid s.store.Stale

theorem settled_start (d : Directory) (c : MemoryCache) (hc : ∀ key, c.entry? key = none) :
    Settled { store := d, cache := c } where
  alone t p hp := by cases hp
  rid :=
    { fenced := fun t p hp => by cases hp
      entries := fun he => by
        rw [hc] at he
        cases he }

theorem Stride.rid_stale (hs : Stride w mint E d s es s') (hd' : d'.Sound mint)
    (hle : d'.Extends s.store) (h : s.Rid d'.Stale) : s'.Rid d'.Stale :=
  hs.rid (fun _ hu => (hu.mono hd' hle hs.coherent.sound).2) h

theorem Course.settled (h : Course w mint s es s') (hbegan : ∀ t j, .began t j ∉ es)
    (hs : s.Settled) : s'.store = s.store ∧ s'.Settled := by
  refine h.inv (fun x => x.store = s.store ∧ x.Settled) (List.Subset.refl es) h.coherent.sound
    (.refl _) ?_ ⟨rfl, hs⟩
  rintro x es₁ x' hx ⟨hstore, halone, hrid⟩
  have hsame : x'.store = x.store := hx.step.store_of_alone halone (by simp)
  refine ⟨hsame.trans hstore, ?_, ?_⟩
  · exact hx.step.alone hx.coherent.orderly (fun t j hj => hbegan t j (hx.seen hj)) halone
  · rw [hsame]
    exact hx.rid_stale hx.coherent.sound (.refl _) hrid

/-- The sources of a task that reads while the cache and the store agree. -/
def present (mint : Mint) (d : Directory) (E : List Event) (t : TaskId) : Sources where
  entry id u := d.view id = some u
  index email named :=
    ∃ n c, .turned t (.readIndex email n) (.cache c) ∈ E ∧ indexRead c = named
  reply q r := r = (d.serve mint q).1

/-- Whether a task is the only one that is served, and reads while the store is `d`. -/
structure Reading (w : Wiring) (mint : Mint) (E : List Event) (d : Directory) (t : TaskId)
    (q : StoreRequest) (s : System) : Prop where
  alone : s.Alone (some t)
  contents : s.store.contents = d.contents
  rid : s.Rid d.Stale
  named : t < s.nextTask
  reads : ∀ p, s.tasks t = some p → p.Reads w (present mint d E t) q

theorem Reading.supplies (h : s.Reading w mint E d t q) (hc : Coherent w mint s) (hes : es ⊆ E)
    (hrefused : ∀ t q e, .refused t q e ∉ E) : s.Supplies mint es t (present mint d E t) where
  entry := by
    intro id bs u hget hu
    obtain ⟨e, he, rfl, -⟩ := MemoryCache.entry?_of_get? hget
    have hv := hc.mem_history he hu
    have hid := hc.sound.id_of_mem_history hv
    have hstale := h.rid.entries he hu
    rw [Directory.Stale, hid] at hstale
    by_contra hne
    exact hstale ⟨Directory.history_congr h.contents id ▸ hv, hne⟩
  index hmem := ⟨_, _, hes hmem, rfl⟩
  reply _ _ := (Directory.serve_congr mint h.contents _).1
  refusal _ hmem := absurd (hes hmem) (hrefused _ _ _)

theorem Stride.reading (hs : Stride w mint E d' s es s') (hbegan : ∀ t j, .began t j ∉ E)
    (hrefused : ∀ t q e, .refused t q e ∉ E) (h : s.Reading w mint E d t q) :
    s'.Reading w mint E d t q where
  alone := hs.step.alone hs.coherent.orderly (fun t j hj => hbegan t j (hs.seen hj)) h.alone
  contents := (hs.step.contents_of_reads h.alone h.reads).trans h.contents
  rid := by
    refine hs.rid ?_ h.rid
    intro u hu
    rw [Directory.view_congr h.contents]
    exact hu.2
  named := Nat.lt_of_lt_of_le h.named hs.step.nextTask_le
  reads := fun _ hp => hs.step.reads hs.coherent.orderly.tidy
    (h.supplies hs.coherent hs.seen hrefused) h.named h.reads hp

theorem Call.alone (c : Call w mint s es s' t (.request q) a) (hs : c.first.Settled) :
    (c.first.spawn c.stage).Alone (some t) := by
  intro u p hp hu
  exact hs.alone u p (c.tasks_of_ne hp hu) (by simp)

/-- A call that reads beside write-backs changes nothing and returns what the store shows. -/
theorem Call.read (c : Call w mint s es s' t (.request q) a) (h : Course w mint s es s')
    (hw : w.isNone = false) (hE : c.during ++ c.returning ⊆ E) (hbegan : ∀ t j, .began t j ∉ E)
    (hrefused : ∀ t q e, .refused t q e ∉ E) (hq : ¬ q.IsWrite) (hs : c.first.Settled) :
    c.next.Settled ∧ c.next.store.contents = c.first.store.contents ∧
      (present mint c.first.store E t).Answers q a := by
  obtain ⟨hduring, hreturning⟩ := List.append_subset.mp hE
  have hbegun : (c.first.spawn c.stage).Reading w mint E c.first.store t q :=
    { alone := c.alone hs
      contents := rfl
      rid := (c.begins h).rid_stale (c.begins h).coherent.sound (.refl _) hs.rid
      named := c.lt_nextTask
      reads := by
        intro p hp
        obtain rfl := c.eq_of_tasks hp
        exact ((start_starts c.start).reads hw rfl hq).process (by simp) }
  have hstride := c.stride h hreturning
  have hlast : c.last.Reading w mint E c.first.store t q :=
    c.course.inv _ hduring h.coherent.sound hstride.limit_before
      (fun hx => hx.reading hbegan hrefused) hbegun
  have hnext := hstride.reading hbegan hrefused hlast
  refine ⟨⟨hnext.alone.none ?_, hnext.rid.of_imp ?_⟩, hnext.contents, ?_⟩
  · exact c.step.tasks_of_returned hstride.coherent.orderly.tidy c.returned
  · intro u hu
    exact (Directory.stale_congr (Directory.identities_of_contents hnext.contents) u).mp hu
  · exact c.step.answers hstride.coherent.orderly.tidy hlast.reads c.returned

/-- The duty of a task that writes beside write-backs, when the store is `d` before. -/
def serving (mint : Mint) (E : List Event) (t : TaskId) (limit d : Directory) (q : StoreRequest)
    (s : System) : Duty :=
  clearing E t limit q (s.store.contents = d.contents)
    (fun r => r = (d.serve mint q).1 ∧ s.store.contents = (d.serve mint q).2.contents) s

/-- Whether a task is the only one that is served, and writes when the store is `d` before. -/
structure Writing (mint : Mint) (E : List Event) (limit d : Directory) (t : TaskId)
    (q : StoreRequest) (s : System) : Prop where
  alone : s.Alone (some t)
  rid : s.Rid d.Stale
  grows : d.Extends s.store
  named : t < s.nextTask
  reported : s.Reported E t
  writes : ∀ p, s.tasks t = some p → p.Writes (s.serving mint E t limit d q)

theorem Stride.writing (hs : Stride w mint E d' s es s') (hbegan : ∀ t j, .began t j ∉ E)
    (hrefused : ∀ t q e, .refused t q e ∉ E) (hd : d.Sound mint)
    (h : s.Writing mint E d' d t q) : s'.Writing mint E d' d t q where
  alone := hs.step.alone hs.coherent.orderly (fun t j hj => hbegan t j (hs.seen hj)) h.alone
  rid := hs.rid_stale hd h.grows h.rid
  grows := h.grows.trans hs.grows
  named := Nat.lt_of_lt_of_le h.named hs.step.nextTask_le
  reported := hs.reported h.reported
  writes := by
    have hsame : (∀ q r, .served t q r ∉ es) → s'.store = s.store := by
      intro hes
      refine hs.step.store_of_alone h.alone ?_
      rintro u q r ⟨⟩
      exact hes q r
    have hfurthers : s.Furthers mint es t (s.serving mint E t d' d q)
        (s'.serving mint E t d' d q) := by
      refine hs.furthers h.reported ?_ ?_ ?_ ?_
      · intro hes hU
        rw [hsame hes]
        exact hU
      · intro hes r hR
        rw [hsame hes]
        exact hR
      · intro hmem hU
        obtain ⟨st, -, -, -, hstore⟩ := hs.step.of_served hmem
        rw [hstore]
        exact Directory.serve_congr mint hU q
      · intro q e hmem _
        exact absurd (hs.seen hmem) (hrefused _ _ _)
    have ho := hs.coherent.orderly.tidy
    exact fun _ hp => (hs.step.origin ho hp).writes ho h.named hfurthers h.writes

/-- A call that writes beside write-backs does to the store what the request does, and returns
what the store replies. -/
theorem Call.write (c : Call w mint s es s' t (.request q) a) (h : Course w mint s es s')
    (hw : w.isNone = false) (hE : c.during ++ c.returning ⊆ E) (hbegan : ∀ t j, .began t j ∉ E)
    (hrefused : ∀ t q e, .refused t q e ∉ E)
    (hremoved : ∀ t id e, .exchanged t (.remove (CacheKey.user id)) (.error e) ∉ E)
    (hq : q.IsWrite) (hs : c.first.Settled) :
    c.next.Settled ∧ c.next.store.contents = (c.first.store.serve mint q).2.contents ∧
      a = (c.first.store.serve mint q).1 := by
  obtain ⟨hduring, hreturning⟩ := List.append_subset.mp hE
  have hd := c.before.coherent.sound
  have hbegun : (c.first.spawn c.stage).Writing mint E s'.store c.first.store t q :=
    { alone := c.alone hs
      rid := (c.begins h).rid_stale hd (.refl _) hs.rid
      grows := .refl _
      named := c.lt_nextTask
      reported := c.reported
      writes := by
        intro p hp
        obtain rfl := c.eq_of_tasks hp
        exact (start_starts c.start).writes rfl hq rfl }
  have hstride := c.stride h hreturning
  have hlast : c.last.Writing mint E s'.store c.first.store t q :=
    c.course.inv _ hduring h.coherent.sound hstride.limit_before
      (fun hx => hx.writing hbegan hrefused hd) hbegun
  have hnext := hstride.writing hbegan hrefused hd hlast
  obtain ⟨⟨hreply, hcontents⟩, hdropped⟩ :=
    hstride.wrote hw hlast.reported hlast.writes c.returned
  obtain ⟨st, r, -, -, -, hturn⟩ := c.step.of_returned c.returned
  have hsame : c.next.store = c.last.store := by rw [hturn, store_turn]
  rw [← hsame] at hcontents
  have hidentities := Directory.identities_of_contents hcontents
  have hm : mint.Fresh (c.first.store.serve mint q).2.drawn :=
    Directory.drawn_of_contents hcontents ▸ c.after.start_fresh
  refine ⟨⟨hnext.alone.none ?_, ?_⟩, hcontents, hreply⟩
  · exact c.step.tasks_of_returned hstride.coherent.orderly.tidy c.returned
  · rcases ha : (c.first.store.serve mint q).1 with e | b
    · have hkept := hidentities.trans (hd.identities_serve hm hq ha)
      exact hnext.rid.of_imp fun u hu => (Directory.stale_congr hkept u).mp hu
    · obtain ⟨id, hconcerns, hstale⟩ := hd.stale_serve hm hq ha
      obtain ⟨id', hconcerns', hcleared⟩ := hdropped b id (hreply.trans ha) hconcerns
      obtain rfl := hconcerns.unique hconcerns'
      rcases hcleared with ⟨e, he⟩ | hcleared
      · exact absurd he (hremoved _ _ _)
      · refine hnext.rid.or hcleared.2 fun u hu => ?_
        refine (hstale u ((Directory.stale_congr hidentities u).mp hu)).imp_right fun hsup => ?_
        exact ((Directory.superseded_congr hcontents).mpr hsup).mono c.after.extends_store

end System

end UserDirectory
