import Mathlib.Algebra.BigOperators.Group.List.Basic
import Mathlib.Algebra.GroupWithZero.Nat
import Mathlib.Data.List.Perm.Basic
import UserDirectory.Proofs.Directory.Journal

namespace UserDirectory

/-- The version that a request has stored, if it is a save that has succeeded. -/
def StoreRequest.saved : StoreRequest → StoreReply → List User
  | .save _, .ok (.user v) => [v]
  | _, _ => []

/-- The version for which a request has made an identity. -/
def StoreRequest.created : StoreRequest → StoreReply → List User
  | .save u, .ok (.user v) => if u.id = .nil then [v] else []
  | _, _ => []

theorem StoreRequest.mem_saved {q : StoreRequest} {r : StoreReply} {v : User} :
    v ∈ q.saved r ↔ (∃ u, q = .save u) ∧ r = .ok (.user v) := by
  constructor
  · intro h
    rw [saved.eq_def] at h
    split at h
    · cases List.mem_singleton.mp h
      exact ⟨⟨_, rfl⟩, rfl⟩
    · cases h
  · rintro ⟨⟨u, rfl⟩, rfl⟩
    exact List.mem_singleton_self _

theorem StoreRequest.mem_created {q : StoreRequest} {r : StoreReply} {v : User} :
    v ∈ q.created r ↔ (∃ u, q = .save u ∧ u.id = .nil) ∧ r = .ok (.user v) := by
  constructor
  · intro h
    rw [created.eq_def] at h
    split at h
    · split at h
      · cases List.mem_singleton.mp h
        exact ⟨⟨_, rfl, ‹_›⟩, rfl⟩
      · cases h
    · cases h
  · rintro ⟨⟨u, rfl, hnil⟩, rfl⟩
    simp [created, hnil]

theorem StoreRequest.filter_saved (q : StoreRequest) (r : StoreReply) (id : Uuid) :
    (q.saved r).filter (·.id = id) = (savedAs? id (q, r)).toList := by
  rw [saved.eq_def]
  split
  · rename_i u v
    by_cases hid : v.id = id <;> simp [savedAs?, hid]
  · rename_i hne
    rcases hs : savedAs? id (q, r) with _ | v
    · rfl
    · obtain ⟨⟨u, he⟩, -⟩ := savedAs?_eq_some.mp hs
      cases he
      exact absurd rfl (hne u v rfl)

def Directory.versionCount (d : Directory) : Nat := (d.identities.map (·.versions.length)).sum

namespace Directory

variable {mint : Mint} {d d' : Directory} {id : Uuid} {i : Identity} {q : StoreRequest}
  {r : StoreReply}

theorem Sound.nodup_identities (h : d.Sound mint) : d.identities.Nodup := by
  refine h.sorted.imp ?_
  rintro i j hlt rfl
  exact Nat.lt_irrefl _ hlt

theorem Sound.mem_identities_iff (h : d.Sound mint) :
    i ∈ d.identities ↔ d.identity? i.id = some i :=
  ⟨h.identity?_of_mem, List.mem_of_find?_eq_some⟩

theorem Sound.perm_of_changes (h : d.Sound mint) (h' : d'.Sound mint) (hc : d.Changes d' i) :
    d'.identities.Perm (i :: d.identities.filter (·.id ≠ i.id)) := by
  have hnodup : (i :: d.identities.filter (·.id ≠ i.id)).Nodup :=
    List.nodup_cons.mpr ⟨by simp, h.nodup_identities.filter _⟩
  refine (List.perm_ext_iff_of_nodup h'.nodup_identities hnodup).mpr fun j => ?_
  rw [h'.mem_identities_iff, hc j.id, List.mem_cons, List.mem_filter, h.mem_identities_iff]
  by_cases hid : j.id = i.id
  · simp [hid, eq_comm]
  · have hne : j ≠ i := fun he => hid (he ▸ rfl)
    simp [hid, hne]

theorem Sound.perm_filter (h : d.Sound mint) (id : Uuid) :
    d.identities.Perm ((d.identity? id).toList ++ d.identities.filter (·.id ≠ id)) := by
  have hnodup : ((d.identity? id).toList ++ d.identities.filter (·.id ≠ id)).Nodup := by
    rcases hi : d.identity? id with _ | i
    · simpa using h.nodup_identities.filter _
    · have hid := id_of_identity? hi
      simpa [hid] using h.nodup_identities.filter _
  refine (List.perm_ext_iff_of_nodup h.nodup_identities hnodup).mpr fun j => ?_
  rw [List.mem_append, List.mem_filter, h.mem_identities_iff, Option.mem_toList]
  by_cases hid : j.id = id
  · simp [hid]
  · have hne : d.identity? id ≠ some j := fun hi => hid (id_of_identity? hi)
    simp [hid, hne]

theorem Sound.sum_of_changes (h : d.Sound mint) (h' : d'.Sound mint) (hc : d.Changes d' i)
    (f : Identity → Nat) :
    (d'.identities.map f).sum + ((d.identity? i.id).map f).getD 0 =
      (d.identities.map f).sum + f i := by
  have hold := ((h.perm_filter i.id).map f).sum_eq
  have hnew := ((h.perm_of_changes h' hc).map f).sum_eq
  rw [hold, hnew]
  cases d.identity? i.id with
  | none =>
      simp only [Option.toList_none, Option.map_none, Option.getD_none, List.map_cons,
        List.sum_cons, List.nil_append]
      omega
  | some j =>
      simp only [Option.toList_some, Option.map_some, Option.getD_some, List.map_append,
        List.map_nil, List.map_cons, List.sum_append, List.sum_cons, List.sum_nil]
      omega

theorem Sound.versionCount_of_changes (h : d.Sound mint) (h' : d'.Sound mint)
    (hc : d.Changes d' i) :
    d'.versionCount + (d.history i.id).length = d.versionCount + i.versions.length := by
  have hsum := h.sum_of_changes h' hc (·.versions.length)
  have hhistory : (d.history i.id).length =
      ((d.identity? i.id).map (·.versions.length)).getD 0 := by
    rw [history]
    cases d.identity? i.id <;> rfl
  rw [hhistory]
  exact hsum

theorem Sound.length_of_changes (h : d.Sound mint) (h' : d'.Sound mint) (hc : d.Changes d' i) :
    d'.identities.length + (d.identity? i.id).toList.length = d.identities.length + 1 := by
  have hsum := h.sum_of_changes h' hc fun _ => 1
  have hlength (l : List Identity) : (l.map fun _ => 1).sum = l.length := by simp
  have hone : ((d.identity? i.id).map fun _ => 1).getD 0 = (d.identity? i.id).toList.length := by
    cases d.identity? i.id <;> rfl
  rw [hlength, hlength, hone] at hsum
  exact hsum

theorem ChangedBy.identity?_eq_none (h : ChangedBy d d' q r) (id : Uuid) :
    d'.identity? id = none ↔ d.identity? id = none ∧ ∀ v ∈ q.created r, v.id ≠ id := by
  simp only [StoreRequest.mem_created]
  cases h with
  | @saved u v staged id_eq isNew live changes =>
      by_cases hid : id = v.id
      · subst hid
        simp [changes v.id, isNew]
      · simp [changes id, hid, Ne.symm hid]
  | @deleted id' i found live changes =>
      obtain rfl : i.id = id' := id_of_identity? found
      by_cases hid : id = i.id
      · subst hid
        simp [changes i.id, found]
      · simp [changes id, hid]
  | refused same => simp [identity?, same]
  | read hq same =>
      have hne : ∀ u, q ≠ .save u := by
        rintro u rfl
        exact hq trivial
      simp [identity?, same, hne]

theorem ChangedBy.versionCount (h : ChangedBy d d' q r) (hd : d.Sound mint)
    (hd' : d'.Sound mint) : d'.versionCount = d.versionCount + (q.saved r).length := by
  cases h with
  | @saved u v staged id_eq isNew live changes =>
      have hcount : d'.versionCount + (d.history v.id).length =
          d.versionCount + (d.history v.id ++ [v]).length :=
        hd.versionCount_of_changes hd' changes
      rw [List.length_append, List.length_singleton] at hcount
      change d'.versionCount = d.versionCount + 1
      omega
  | @deleted id i found live changes =>
      have hcount := hd.versionCount_of_changes hd' changes
      have hhistory : d.history i.id = i.versions := by
        rw [Directory.history, id_of_identity? found, found]
        rfl
      dsimp only at hcount
      rw [hhistory] at hcount
      exact Nat.add_right_cancel hcount
  | refused same =>
      simp only [Directory.versionCount, same, StoreRequest.saved, List.length_nil, Nat.add_zero]
  | read hq same =>
      have hnone : q.saved r = [] := by
        cases q with
        | save u => exact absurd trivial hq
        | _ => rfl
      simp only [Directory.versionCount, same, hnone, List.length_nil, Nat.add_zero]

theorem ChangedBy.length_identities (h : ChangedBy d d' q r) (hd : d.Sound mint)
    (hd' : d'.Sound mint) :
    d'.identities.length = d.identities.length + (q.created r).length := by
  cases h with
  | @saved u v staged id_eq isNew live changes =>
      have hlength := hd.length_of_changes hd' changes
      by_cases hu : u.id = .nil
      · rw [isNew.mpr hu] at hlength
        simp only [StoreRequest.created, if_pos hu]
        exact hlength
      · obtain ⟨i, hi⟩ := Option.ne_none_iff_exists'.mp fun hnone => hu (isNew.mp hnone)
        rw [hi] at hlength
        simp only [StoreRequest.created, if_neg hu]
        exact Nat.add_right_cancel hlength
  | @deleted id i found live changes =>
      have hlength := hd.length_of_changes hd' changes
      have hi : d.identity? i.id = some i := by rw [id_of_identity? found, found]
      rw [hi] at hlength
      exact Nat.add_right_cancel hlength
  | refused same => simp only [same, StoreRequest.created, List.length_nil, Nat.add_zero]
  | read hq same =>
      have hnone : q.created r = [] := by
        cases q with
        | save u => exact absurd trivial hq
        | _ => rfl
      simp only [same, hnone, List.length_nil, Nat.add_zero]

end Directory

end UserDirectory
