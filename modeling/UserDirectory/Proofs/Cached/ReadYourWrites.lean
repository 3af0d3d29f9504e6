import UserDirectory.Proofs.Cached.Clearance
import UserDirectory.Proofs.Cached.Schedule

namespace UserDirectory

open UserDirectory.Json

/-- Whether a user was saved, and is not superseded by the answer to a write. -/
def Directory.Shows (d : Directory) (id : Uuid) (a : StoreAnswer) (u : User) : Prop :=
  u ∈ d.history u.id ∧ ¬ d.Superseded id a u

/-- The sources of reads when such users only are to be seen. -/
def Sources.showing (d : Directory) (id : Uuid) (a : StoreAnswer) : Sources where
  entry _ u := d.Shows id a u
  index _ _ := True
  reply q r := q.IsRead → ∀ u, r = .ok (.user u) → d.Shows id a u

variable {d d' : Directory} {mint : Mint} {id : Uuid} {a : StoreAnswer} {u v : User}
  {q : StoreRequest} {r : StoreReply}

theorem Sources.Gives.shows {id' : Uuid} (h : (Sources.showing d id a).Gives id' r)
    (hr : r = .ok (.user u)) : d.Shows id a u := by
  cases h with
  | entry h =>
      cases hr
      exact h
  | store h => exact h trivial u hr

theorem Sources.Answers.shows (h : (Sources.showing d id a).Answers q r) (hq : q.IsRead)
    (hr : r = .ok (.user u)) : d.Shows id a u := by
  cases h with
  | get h => exact h.shows hr
  | confirmed hi h he =>
      cases hr
      exact h.shows rfl
  | passed hi h ha =>
      cases hr
      exact absurd rfl (ha u)
  | failed hi h he => cases hr
  | found hm h => exact h trivial u hr
  | query h => exact hq.elim
  | getVersion h => exact hq.elim

theorem Directory.Shows.of_view (hd : d.Sound mint) (hc : d.Confirms id a) (he : d.Extends d')
    (hd' : d'.Sound mint) (hv : d.view u.id = some u) : d'.Shows id a u :=
  ⟨(he.history u.id).subset (Directory.mem_history_of_view hv),
    fun hu => (hu.of_extends hc he hd').ne_view hc hd hv⟩

theorem Directory.Shows.mem_of_user (h : d.Shows v.id (.user v) u) (hv : v ∈ d.history v.id)
    (hid : u.id = v.id) :
    ∃ older newer, d.history v.id = older ++ v :: newer ∧ u ∈ v :: newer := by
  obtain ⟨older, newer, hsplit⟩ := List.append_of_mem hv
  refine ⟨older, newer, hsplit, ?_⟩
  have hu := h.1
  rw [hid, hsplit] at hu
  rcases List.mem_append.mp hu with hu | hu
  · refine absurd ⟨hid, ?_⟩ h.2
    rw [hsplit]
    exact (List.singleton_sublist.mpr hu).append
      (List.singleton_sublist.mpr (List.mem_cons_self (a := v)))
  · exact hu

namespace System

variable {w : Wiring} {s s' : System} {es E l : List Event} {t : TaskId}

theorem Stride.supplies (hs : Stride w mint E d s es s') (h : s.Cleared d id a) :
    s.Supplies mint es t (.showing d id a) where
  entry := by
    intro id' bs u hget hu
    obtain ⟨e, he, rfl, -⟩ := MemoryCache.entry?_of_get? hget
    have hv := hs.coherent.mem_history he hu
    rw [← hs.coherent.sound.id_of_mem_history hv] at hv
    exact ⟨(hs.limit_before.history _).subset hv, h.2.entries he hu⟩
  index _ := trivial
  reply _ _ hq u hr :=
    .of_view hs.coherent.sound h.1 hs.limit_before hs.sound
      (Directory.view_of_serve hs.coherent.sound hq hr)
  refusal _ _ _ u hr := by cases hr

abbrev clearingOnly (E : List Event) (t : TaskId) (d : Directory) (q : StoreRequest) :
    System → Duty :=
  clearing E t d q True fun _ => True

/-- A write that has returned has cleared the cache unless dropping the entry has failed. -/
theorem Call.cleared {j : Job} (c : Call w mint s es s' t j (.ok a)) (h : Course w mint s es s')
    (hw : w.isNone = false) (hj : j.IsWrite) (ha : j.Concerns id a)
    (hremoved : ∀ e, .exchanged t (.remove (CacheKey.user id)) (.error e) ∉ es) :
    c.next.Cleared s'.store id a := by
  have hstride := c.stride h c.returning_subset
  -- While the task runs, it is known to have failed if it has, and it serves its duty.
  obtain ⟨hrep, hperforms⟩ := c.performed h c.during_subset (fun x => x.Reported es t)
    (y := fun x q => x.clearingOnly es t s'.store q) (o := .lookups) hj (fun _ _ => rfl)
    c.reported (fun _ => trivial) fun hx hrep =>
      ⟨hx.reported hrep, fun _ => rfl, fun _ => supplies_lookups .., fun _ _ _ => trivial,
        fun _ _ => hx.furthers hrep (fun _ _ => trivial) (fun _ _ _ => trivial)
          (fun _ _ => trivial) fun _ _ => trivial⟩
  obtain ⟨q, hq, hwrites⟩ :=
    c.step.writes_of_performs hstride.coherent.orderly hperforms c.returned
  obtain ⟨-, hdropped⟩ := hstride.wrote hw hrep hwrites c.returned
  obtain ⟨id', hid', hcleared⟩ := hdropped a id rfl (hq.concerns ha)
  obtain rfl := (hq.concerns ha).unique hid'
  rcases hcleared with ⟨e, he⟩ | hcleared
  · exact absurd he (hremoved e)
  · exact hcleared

theorem Call.shows (c : Call w mint s es s' t (.request q) (.ok (.user u)))
    (h : Course w mint s es s') (hw : w.isNone = false) (hq : q.IsRead)
    (hcleared : s.Cleared s'.store id a) : s'.store.Shows id a u := by
  have hd := h.coherent.sound
  have hbegun : (c.first.spawn c.stage).Cleared s'.store id a :=
    (c.begins h).cleared
      (c.before.inv _ c.earlier_subset hd (c.begins h).limit_before Stride.cleared hcleared)
  -- While the read runs the cache stays clear of what is superseded, so that the task hears none of
  -- it, whoever writes back beside it.
  let I (x : System) : Prop := x.Cleared s'.store id a ∧ t < x.nextTask ∧
    ∀ p, x.tasks t = some p → p.Reads w (.showing s'.store id a) q
  have hI : I c.last := by
    refine c.course.inv I c.during_subset hd (c.stride h c.returning_subset).limit_before ?_
      ⟨hbegun, c.lt_nextTask, ?_⟩
    · rintro x es x' hs ⟨hx, ht, hreads⟩
      exact ⟨hs.cleared hx, Nat.lt_of_lt_of_le ht hs.step.nextTask_le,
        fun p hp => hs.step.reads hs.coherent.orderly.tidy (hs.supplies hx) ht hreads hp⟩
    · intro p hp
      obtain rfl := c.eq_of_tasks hp
      exact ((start_starts c.start).reads hw rfl hq.not_isWrite).process (by simp)
  have hanswers := c.step.answers c.course.coherent.orderly.tidy hI.2.2 c.returned
  exact hanswers.shows hq rfl

/-- What the reads return that start after a write has returned, when the store has become `d`. -/
structure ReadsOwnWrites (es : List Event) (d : Directory) : Prop where
  /-- After a save, the version that was saved or one that was appended later. -/
  saved : ∀ {t u v r q x},
    [.began t (.request (.save u)), .returned t (.ok (.user v)), .began r (.request q),
      .returned r (.ok (.user x))].Sublist es →
    (∀ e, .exchanged t (.remove (CacheKey.user v.id)) (.error e) ∉ es) → q.IsRead → x.id = v.id →
    ∃ older newer, d.history v.id = older ++ v :: newer ∧ x ∈ v :: newer
  /-- After a deletion, another user. -/
  deleted : ∀ {t id r q x},
    [.began t (.request (.delete id)), .returned t (.ok .done), .began r (.request q),
      .returned r (.ok (.user x))].Sublist es →
    (∀ e, .exchanged t (.remove (CacheKey.user id)) (.error e) ∉ es) → q.IsRead → x.id ≠ id

theorem exists_append_of_sublist {e e' : Event} (h : (e :: e' :: l).Sublist es) :
    ∃ es₁ es₂ es₃, es = es₁ ++ e :: (es₂ ++ e' :: es₃) ∧ l.Sublist es₃ := by
  obtain ⟨l₁, l₂, rfl, he, h'⟩ := List.cons_sublist_iff.mp h
  obtain ⟨l₃, l₄, rfl, he', hl⟩ := List.cons_sublist_iff.mp h'
  obtain ⟨es₁, r₁, rfl⟩ := List.append_of_mem he
  obtain ⟨r₂, r₃, rfl⟩ := List.append_of_mem he'
  exact ⟨es₁, r₁ ++ r₂, r₃ ++ l₄, by simp, hl.trans (List.sublist_append_right r₃ l₄)⟩

theorem Course.shows (h : Course w mint s es s') (hw : w.isNone = false) {q' : StoreRequest}
    {r : TaskId} (hq : q.IsWrite) (ha : q.Concerns id a) (hq' : q'.IsRead)
    (hl : [.began t (.request q), .returned t (.ok a), .began r (.request q'),
      .returned r (.ok (.user u))].Sublist es)
    (hremoved : ∀ e, .exchanged t (.remove (CacheKey.user id)) (.error e) ∉ es) :
    s'.store.Confirms id a ∧ s'.store.Shows id a u := by
  obtain ⟨es₁, es₂, es₃, he, hl'⟩ := exists_append_of_sublist hl
  obtain ⟨es₄, es₅, es₆, he', -⟩ := exists_append_of_sublist hl'
  obtain ⟨c, -, rfl⟩ := h.call he
  obtain ⟨c', -⟩ := c.after.call he'
  have hcleared := c.cleared h hw hq ha hremoved
  exact ⟨hcleared.1.mono c.after.extends_store, c'.shows c.after hw hq' hcleared⟩

/-- Reads see the writes that have returned before they start, whatever the cache loses and
whatever fails beside the removals of the entries that the writes replace. -/
theorem reads_own_writes {cfg : UserCacheConfig} {m : Nat} (hd : d.Reachable mint)
    (h : Run (some cfg) mint { store := d, cache := { maxLifetime := m } } es s)
    (hm : mint.Fresh s.store.drawn) (hquiet : ∀ key, .meddled key ∉ es) :
    ReadsOwnWrites es s.store := by
  have hcourse := Course.of_run hd h hm hquiet
  constructor
  · intro t u v r q x hl hremoved hq hid
    obtain ⟨hconfirms, hshows⟩ :=
      hcourse.shows rfl (q := .save u) trivial ⟨v, rfl, rfl⟩ hq hl hremoved
    exact hshows.mem_of_user hconfirms.2 hid
  · intro t id r q x hl hremoved hq hid
    obtain ⟨-, hshows⟩ := hcourse.shows rfl (q := .delete id) trivial rfl hq hl hremoved
    exact hshows.2 hid

/-- The version that a read has found is saved over before it is written back, and a later read
returns the new version. -/
theorem reads_own_writes_of_late_write_back :
    let mint : Mint := fun n => .ofNat (n + 1)
    let u : User := { id := mint 1, firstName := "Ada" }
    let v : User := { u with versionId := mint 2, isLatestVersion := true }
    ∃ es s, Run (some {}) mint { store := {}, cache := { maxLifetime := 1000 } } es s ∧
      [.returned 1 (.ok (.user { id := mint 1, versionId := mint 0, isLatestVersion := true })),
        .began 3 (.request (.save u)), .returned 3 (.ok (.user v)), .returned 2 (.ok .done),
        .began 4 (.request (.get v.id)), .returned 4 (.ok (.user v))].Sublist es ∧
      ReadsOwnWrites es s.store := by
  intro mint u v
  obtain ⟨es, s, h, hfaults, hend⟩ := Run.of_any (some {}) mint
    { store := {}, cache := { maxLifetime := 1000 } }
    ([.start (.request (.save {}))] ++ List.replicate 6 (.advance 0) ++
      [.start (.request (.get (mint 1)))] ++ List.replicate 4 (.advance 1) ++
      [.start (.request (.save u))] ++ List.replicate 8 (.advance 3) ++
      List.replicate 2 (.advance 2) ++
      [.start (.request (.get v.id))] ++ List.replicate 4 (.advance 4))
    (fun x => x.2.store.drawn = 3 ∧ List.isSublist
      [.returned 1 (.ok (.user { id := mint 1, versionId := mint 0, isLatestVersion := true })),
        .began 3 (.request (.save u)), .returned 3 (.ok (.user v)), .returned 2 (.ok .done),
        .began 4 (.request (.get v.id)), .returned 4 (.ok (.user v))] x.1)
    (by decide +kernel)
  obtain ⟨hdrawn, hl⟩ := of_decide_eq_true hend
  have hm : mint.Fresh s.store.drawn := by
    rw [hdrawn]
    decide +kernel
  exact ⟨es, s, h, List.isSublist_iff_sublist.mp hl,
    reads_own_writes .empty h hm fun key hk => hfaults _ hk trivial⟩

end System

end UserDirectory
