import Mathlib.Data.List.Basic
import UserDirectory.Proofs.Directory.Email
import UserDirectory.Proofs.Directory.Versions

namespace UserDirectory

theorem pageSize_eq_effectiveLimit (limit : Nat) :
    Directory.pageSize limit = effectiveLimit limit := by
  cases limit with
  | zero => rfl
  | succ limit => rfl

theorem QueryParams.isMetBy_eq (p : QueryParams) (u : User) :
    p.isMetBy u = (p.conditions.getD {}).toList.all fun (c, v) => u.column c = v := by
  cases h : p.conditions with
  | none => simp [isMetBy, h, UserPatch.toList, UserPatch.value?, Optional.toOption]
  | some conditions => simp [isMetBy, h, UserPatch.isMatchedBy, User.valueNamed?_name]

namespace Directory

variable {mint : Mint} {d : Directory} {u : User}

structure Ordered (d : Directory) : Prop where
  sorted : d.identities.Pairwise (·.id < ·.id)
  owned : ∀ i ∈ d.identities, ∀ u ∈ i.versions, u.id = i.id ∧ u.isLatestVersion = true

theorem Ordered.of_identities {d' : Directory} (h : d.Ordered)
    (he : d'.identities = d.identities) : d'.Ordered := by
  refine ⟨?_, ?_⟩
  · rw [he]
    exact h.sorted
  · rw [he]
    exact h.owned

theorem Ordered.insert (h : d.Ordered) (id : Uuid) :
    Ordered { d with identities := insert { id := id } d.identities } where
  sorted := sorted_insert h.sorted
  owned i hi u hu := by
    rcases mem_insert hi with rfl | hi
    · cases hu
    · exact h.owned i hi u hu

theorem Ordered.append (h : d.Ordered) (hu : u.isLatestVersion = true) :
    Ordered { d with
      identities :=
        update u.id (fun i => { i with versions := i.versions ++ [u] }) d.identities } where
  sorted := sorted_update (fun _ => rfl) h.sorted
  owned i hi v hv := by
    obtain ⟨j, hj, rfl⟩ := List.mem_map.mp hi
    split at hv
    · rename_i hid
      rw [if_pos hid]
      rcases List.mem_append.mp hv with hv | hv
      · exact h.owned j hj v hv
      · rw [List.mem_singleton.mp hv]
        exact ⟨hid.symm, hu⟩
    · rename_i hid
      rw [if_neg hid]
      exact h.owned j hj v hv

theorem Ordered.mark (h : d.Ordered) (id : Uuid) :
    Ordered { d with
      identities := update id (fun i => { i with isDeleted := true }) d.identities } where
  sorted := sorted_update (fun _ => rfl) h.sorted
  owned i hi v hv := by
    obtain ⟨j, hj, rfl⟩ := List.mem_map.mp hi
    split at hv <;> rename_i hid
    · rw [if_pos hid]
      exact h.owned j hj v hv
    · rw [if_neg hid]
      exact h.owned j hj v hv

theorem Ordered.save (h : d.Ordered) (mint : Mint) (u : User) : (d.save mint u).2.Ordered := by
  have hlatest : (u.stage mint d.drawn).user.isLatestVersion = true := isLatestVersion_stage _ _ _
  have hstaged : Ordered
      { d with
        identities := if (u.stage mint d.drawn).isNew then
            Directory.insert { id := (u.stage mint d.drawn).user.id } d.identities
          else d.identities
        drawn := (u.stage mint d.drawn).next } := by
    split
    · exact (h.insert _).of_identities rfl
    · exact h.of_identities rfl
  rw [Directory.save]
  split
  · split
    · exact hstaged
    · exact hstaged.append hlatest
  · exact hstaged

theorem Ordered.delete (h : d.Ordered) (id : Uuid) : (d.delete id).2.Ordered := by
  rw [Directory.delete]
  split
  · split
    · exact h
    · exact h.mark id
  · exact h

theorem Ordered.serve (h : d.Ordered) (mint : Mint) (q : StoreRequest) :
    (d.serve mint q).2.Ordered := by
  have hcount : (d.count q).Ordered := h.of_identities rfl
  cases q with
  | save u => exact hcount.save mint u
  | delete id => exact hcount.delete id
  | _ => exact hcount

theorem Reachable.ordered (h : d.Reachable mint) : d.Ordered := by
  induction h with
  | empty => exact ⟨List.Pairwise.nil, by simp⟩
  | serve _ q ih => exact ih.serve mint q

theorem Identity.mem_of_current? {i : Identity} (h : i.current? = some u) : u ∈ i.versions := by
  rw [Identity.current?] at h
  split at h
  · cases h
  · exact List.mem_of_getLast? h

theorem Ordered.isLatestVersion (h : d.Ordered) (hu : u ∈ d.currentUsers) :
    u.isLatestVersion = true := by
  obtain ⟨i, hi, hcurrent⟩ := List.mem_filterMap.mp hu
  exact (h.owned i hi u (Identity.mem_of_current? hcurrent)).2

theorem Ordered.pairwise_currentUsers (h : d.Ordered) :
    d.currentUsers.Pairwise (·.id < ·.id) := by
  refine Directory.pairwise_currentUsers h.sorted ?_
  intro i hi u hu
  exact (h.owned i hi u (Identity.mem_of_current? hu)).1

end Directory

end UserDirectory
