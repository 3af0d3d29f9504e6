import UserDirectory.Cached.Fence
import UserDirectory.Proofs.Association

namespace UserDirectory

namespace Fences

variable {f : Fences} {id id' : Uuid} {t : TaskId}

theorem fence_setFence (f : Fences) (id id' : Uuid) (x : Fence) :
    (f.setFence id x).fence id' = if id' = id then x else f.fence id' := by
  simp only [fence, setFence, Association.lookup_cons_filter_ne]
  split <;> rfl

@[simp] theorem clock_acquire (f : Fences) (id : Uuid) (t : TaskId) :
    (f.acquire id t).2.clock = f.clock := by
  simp only [acquire]
  split <;> rfl

@[simp] theorem clock_release (f : Fences) (id : Uuid) : (f.release id).2.clock = f.clock := by
  simp only [release]
  split <;> rfl

@[simp] theorem clock_abandon (f : Fences) (id : Uuid) (t : TaskId) :
    (f.abandon id t).2.clock = f.clock := by
  simp only [abandon]
  split
  · exact clock_release f id
  · rfl

@[simp] theorem clock_stamp (f : Fences) (id : Uuid) : (f.stamp id).clock = f.clock + 1 := rfl

@[simp] theorem stamp_acquire (f : Fences) (id id' : Uuid) (t : TaskId) :
    ((f.acquire id t).2.fence id').stamp = (f.fence id').stamp := by
  simp only [acquire]
  split <;>
  · simp only [fence_setFence]
    split <;> simp_all

@[simp] theorem stamp_release (f : Fences) (id id' : Uuid) :
    ((f.release id).2.fence id').stamp = (f.fence id').stamp := by
  simp only [release]
  split <;>
  · simp only [fence_setFence]
    split <;> simp_all

@[simp] theorem stamp_abandon (f : Fences) (id id' : Uuid) (t : TaskId) :
    ((f.abandon id t).2.fence id').stamp = (f.fence id').stamp := by
  simp only [abandon]
  split
  · exact stamp_release f id id'
  · simp only [fence_setFence]
    split <;> simp_all

theorem stamp_stamp (f : Fences) (id id' : Uuid) :
    ((f.stamp id).fence id').stamp = if id' = id then f.clock + 1 else (f.fence id').stamp := by
  simp only [stamp, fence_setFence]
  split <;> rfl

@[simp] theorem holder_stamp (f : Fences) (id id' : Uuid) :
    ((f.stamp id).fence id').holder = (f.fence id').holder := by
  simp only [stamp, fence_setFence]
  split
  · subst id'
    rfl
  · rfl

@[simp] theorem waiting_stamp (f : Fences) (id id' : Uuid) :
    ((f.stamp id).fence id').waiting = (f.fence id').waiting := by
  simp only [stamp, fence_setFence]
  split
  · subst id'
    rfl
  · rfl

theorem mem_waiting_of_release (h : (f.release id).1 = some t) : t ∈ (f.fence id).waiting := by
  rcases hw : (f.fence id).waiting with _ | ⟨next, rest⟩
  · simp [release, hw] at h
  · simp only [release, hw, Option.some.injEq] at h
    simp [h]

theorem holder_of_abandon {u : TaskId} (h : (f.abandon id t).1 = some u) :
    (f.fence id).holder = some t ∧ (f.release id).1 = some u := by
  by_cases ht : (f.fence id).holder = some t
  · simp only [abandon, ht, if_true] at h
    exact ⟨ht, h⟩
  · simp [abandon, ht] at h

/-- The fences agree with a record of which fence each task holds and which it waits for. -/
structure Owned (f : Fences) (holds waits : TaskId → Option Uuid) : Prop where
  holder : ∀ id t, (f.fence id).holder = some t ↔ holds t = some id
  waiting : ∀ id t, t ∈ (f.fence id).waiting ↔ waits t = some id
  nodup : ∀ id, (f.fence id).waiting.Nodup
  idle : ∀ id, (f.fence id).holder = none → (f.fence id).waiting = []
  /-- No task waits for a fence while it holds one. -/
  apart : ∀ t, holds t = none ∨ waits t = none

variable {holds waits : TaskId → Option Uuid}

theorem Owned.unique (h : f.Owned holds waits) {t t' : TaskId} (ht : holds t = some id)
    (ht' : holds t' = some id) : t = t' := by
  have hs := (h.holder id t).mpr ht
  rw [(h.holder id t').mpr ht'] at hs
  exact (Option.some.inj hs).symm

theorem Owned.stamp (h : f.Owned holds waits) (id : Uuid) : (f.stamp id).Owned holds waits where
  holder id' t := by rw [holder_stamp, h.holder]
  waiting id' t := by rw [waiting_stamp, h.waiting]
  nodup id' := by rw [waiting_stamp]; exact h.nodup id'
  idle id' hn := by
    rw [holder_stamp] at hn
    rw [waiting_stamp]
    exact h.idle id' hn
  apart := h.apart

theorem Owned.setFence (h : f.Owned holds waits) {x : Fence} {holds' waits' : TaskId → Option Uuid}
    (hholder : ∀ u, x.holder = some u ↔ holds' u = some id)
    (hwaiting : ∀ u, u ∈ x.waiting ↔ waits' u = some id)
    (hholds : ∀ id' u, id' ≠ id → (holds' u = some id' ↔ holds u = some id'))
    (hwaits : ∀ id' u, id' ≠ id → (waits' u = some id' ↔ waits u = some id'))
    (hnodup : x.waiting.Nodup) (hidle : x.holder = none → x.waiting = [])
    (hapart : ∀ u, holds' u = none ∨ waits' u = none) :
    (f.setFence id x).Owned holds' waits' where
  holder id' u := by
    rw [fence_setFence]
    split
    · subst id'
      exact hholder u
    · rename_i hid
      rw [h.holder, hholds id' u hid]
  waiting id' u := by
    rw [fence_setFence]
    split
    · subst id'
      exact hwaiting u
    · rename_i hid
      rw [h.waiting, hwaits id' u hid]
  nodup id' := by
    rw [fence_setFence]
    split
    · exact hnodup
    · exact h.nodup id'
  idle id' := by
    rw [fence_setFence]
    split
    · exact hidle
    · exact h.idle id'
  apart := hapart

theorem Owned.acquire_granted (h : f.Owned holds waits) (hfree : (f.acquire id t).1 = true)
    (ht : holds t = none) (ht' : waits t = none) :
    (f.acquire id t).2.Owned (fun u => if u = t then some id else holds u) waits := by
  rcases hh : (f.fence id).holder with _ | u
  · have he : (f.acquire id t).2 = f.setFence id { f.fence id with holder := some t } := by
      simp [acquire, hh]
    rw [he]
    apply h.setFence
    · intro u
      have hnone : holds u ≠ some id := by
        rw [Ne, ← h.holder, hh]
        simp
      by_cases hu : u = t
      · simp [hu]
      · simp [hu, Ne.symm hu, hnone]
    · exact h.waiting id
    · intro id' u hid
      by_cases hu : u = t
      · simp [hu, ht, Ne.symm hid]
      · simp [hu]
    · exact fun _ _ _ => Iff.rfl
    · exact h.nodup id
    · simp
    · intro u
      by_cases hu : u = t
      · subst u
        exact Or.inr ht'
      · simpa [hu] using h.apart u
  · simp [acquire, hh] at hfree

theorem Owned.acquire_queued (h : f.Owned holds waits) (htaken : (f.acquire id t).1 = false)
    (ht' : holds t = none) (ht : waits t = none) :
    (f.acquire id t).2.Owned holds fun u => if u = t then some id else waits u := by
  rcases hh : (f.fence id).holder with _ | v
  · simp [acquire, hh] at htaken
  · have he : (f.acquire id t).2 =
        f.setFence id { f.fence id with waiting := (f.fence id).waiting ++ [t] } := by
      simp [acquire, hh]
    have hnew : t ∉ (f.fence id).waiting := by
      rw [h.waiting, ht]
      simp
    rw [he]
    apply h.setFence
    · exact h.holder id
    · intro u
      by_cases hu : u = t
      · simp [hu]
      · simp [hu, h.waiting]
    · exact fun _ _ _ => Iff.rfl
    · intro id' u hid
      by_cases hu : u = t
      · simp [hu, ht, Ne.symm hid]
      · simp [hu]
    · refine List.nodup_append.mpr ⟨h.nodup id, by simp, ?_⟩
      rintro a ha b hb rfl
      exact hnew (List.mem_singleton.mp hb ▸ ha)
    · simp [hh]
    · intro u
      by_cases hu : u = t
      · subst u
        exact Or.inl ht'
      · simpa [hu] using h.apart u

theorem ite_none_eq {o : TaskId → Option Uuid} (ht : o t = none) (u : TaskId) :
    (if u = t then none else o u) = o u := by
  split
  · subst u
    exact ht.symm
  · rfl

theorem Owned.freed (h : f.Owned holds waits) (ht : holds t = some id)
    (hw : (f.fence id).waiting = []) :
    (f.setFence id { f.fence id with holder := none }).Owned
      (fun u => if u = t then none else holds u) (fun u => if u = t then none else waits u) := by
  have hwaits : waits t = none := by simpa [ht] using h.apart t
  apply h.setFence
  · intro u
    have hother : u ≠ t → holds u ≠ some id := fun hu hs => hu (h.unique hs ht)
    by_cases hu : u = t
    · simp [hu]
    · simp [hu, hother hu]
  · intro u
    rw [ite_none_eq hwaits]
    exact h.waiting id u
  · intro id' u hid
    by_cases hu : u = t
    · simp [hu, ht, Ne.symm hid]
    · simp [hu]
  · intro id' u _
    rw [ite_none_eq hwaits]
  · exact h.nodup id
  · exact fun _ => hw
  · intro u
    by_cases hu : u = t
    · simp [hu]
    · simpa [hu] using h.apart u

theorem Owned.passed (h : f.Owned holds waits) (ht : holds t = some id) {next : TaskId}
    {rest : List TaskId} (hw : (f.fence id).waiting = next :: rest) :
    (f.setFence id { f.fence id with holder := some next, waiting := rest }).Owned
      (fun u => if next = u then some id else if u = t then none else holds u)
      (fun u => if next = u then none else if u = t then none else waits u) := by
  have hwaits : waits t = none := by simpa [ht] using h.apart t
  have hnodup := h.nodup id
  rw [hw, List.nodup_cons] at hnodup
  have hnext : waits next = some id := by
    rw [← h.waiting, hw]
    simp
  have hnext' : holds next = none := by simpa [hnext] using h.apart next
  apply h.setFence
  · intro u
    have hother : u ≠ t → holds u ≠ some id := fun hu hs => hu (h.unique hs ht)
    by_cases hn : next = u
    · simp [hn]
    · by_cases hu : u = t
      · simp [hu]
      · simp [hn, hu, hother hu]
  · intro u
    rw [ite_none_eq hwaits]
    by_cases hn : next = u
    · subst u
      simp [hnodup.1]
    · have hmem := h.waiting id u
      rw [hw, List.mem_cons] at hmem
      simpa [hn, Ne.symm hn] using hmem
  · intro id' u hid
    by_cases hn : next = u
    · subst u
      simp [hnext', Ne.symm hid]
    · by_cases hu : u = t
      · subst u
        simp [hn, ht, Ne.symm hid]
      · simp [hn, hu]
  · intro id' u hid
    rw [ite_none_eq hwaits]
    by_cases hn : next = u
    · subst u
      simp [hnext, Ne.symm hid]
    · simp [hn]
  · exact hnodup.2
  · simp
  · intro u
    by_cases hn : next = u
    · simp [hn]
    · by_cases hu : u = t
      · simp [hu]
      · simpa [hn, hu] using h.apart u

/-- A fence that is given up goes to nobody, or to one task that waited for it. -/
theorem Owned.release (h : f.Owned holds waits) (ht : holds t = some id) :
    (f.release id).2.Owned
      (fun u => if (f.release id).1 = some u then some id else if u = t then none else holds u)
      (fun u => if (f.release id).1 = some u then none else if u = t then none else waits u) := by
  rcases hw : (f.fence id).waiting with _ | ⟨next, rest⟩
  · have he : f.release id = (none, f.setFence id { f.fence id with holder := none }) := by
      simp [Fences.release, hw]
    rw [he]
    simpa only [reduceCtorEq, if_false] using h.freed ht hw
  · have he : f.release id =
        (some next, f.setFence id { f.fence id with holder := some next, waiting := rest }) := by
      simp [Fences.release, hw]
    rw [he]
    simpa only [Option.some.injEq] using h.passed ht hw

theorem Owned.abandon (h : f.Owned holds waits) (hh : holds t = none ∨ holds t = some id)
    (hw : waits t = none ∨ waits t = some id) :
    (f.abandon id t).2.Owned
      (fun u => if (f.abandon id t).1 = some u then some id else if u = t then none else holds u)
      (fun u => if (f.abandon id t).1 = some u then none else if u = t then none else waits u) := by
  by_cases ht : (f.fence id).holder = some t
  · have he : f.abandon id t = f.release id := by simp [Fences.abandon, ht]
    rw [he]
    exact h.release ((h.holder id t).mp ht)
  · have he : f.abandon id t =
        (none, f.setFence id
          { f.fence id with waiting := (f.fence id).waiting.filter (· ≠ t) }) := by
      simp [Fences.abandon, ht]
    have hnone : holds t = none := by
      rcases hh with hh | hh
      · exact hh
      · exact absurd ((h.holder id t).mpr hh) ht
    rw [he]
    simp only [reduceCtorEq, if_false]
    apply h.setFence
    · intro u
      rw [ite_none_eq hnone]
      exact h.holder id u
    · intro u
      by_cases hu : u = t
      · simp [hu]
      · simp [hu, h.waiting]
    · intro id' u _
      rw [ite_none_eq hnone]
    · intro id' u hid
      by_cases hu : u = t
      · subst u
        rcases hw with hw | hw
        · simp [hw]
        · simp [hw, Ne.symm hid]
      · simp [hu]
    · exact (h.nodup id).filter _
    · intro hn
      simp [h.idle id hn]
    · intro u
      by_cases hu : u = t
      · simp [hu]
      · simpa [hu] using h.apart u

end Fences

end UserDirectory
