import UserDirectory.Proofs.Directory.Contents

namespace UserDirectory

namespace Directory

variable {mint : Mint} {d : Directory} {id : Uuid} {u v : User} {q : StoreRequest}

theorem history_delete (d : Directory) (id id' : Uuid) :
    (d.delete id).2.history id' = d.history id' := by
  simp only [delete]
  split
  · rename_i i hi
    split
    · rfl
    · have hfind : d.identities.find? (·.id = id) = some i := hi
      have hmark : ∀ i : Identity, { i with isDeleted := true }.id = i.id := fun _ => rfl
      simp only [history, identity?, find?_update _ hmark]
      split
      · rename_i hid
        rw [hid, hfind]
        rfl
      · rfl
  · rfl

theorem eq_of_serve_save {a : StoreAnswer} (h : (d.serve mint (.save u)).1 = .ok a) :
    a = .user (u.stage mint d.drawn).user := by
  have hreply : (d.serve mint (.save u)).1 = ((d.count (.save u)).save mint u).1.map .user := rfl
  rw [hreply] at h
  simp only [save] at h
  split at h
  · split at h
    · cases h
    · cases h
      rfl
  · cases h

theorem isLatestVersion_stage (mint : Mint) (n : Nat) (u : User) :
    (u.stage mint n).user.isLatestVersion = true := by
  simp only [User.stage]
  split <;> rfl

theorem Sound.mem_history_serve (h : d.Sound mint) (hm : mint.Fresh (d.serve mint q).2.drawn)
    (hu : u ∈ (d.serve mint q).2.history id) :
    u ∈ d.history id ∨ ∃ v, q = .save v ∧ (d.serve mint q).1 = .ok (.user u) := by
  cases q with
  | save v =>
      rcases hr : (d.serve mint (.save v)).1 with e | a
      · rw [history, identity?, h.identities_serve hm trivial hr] at hu
        exact Or.inl hu
      · obtain ⟨x, rfl, -, hc⟩ := serve_save_ok h hm hr
        by_cases hid : id = x.id
        · subst hid
          rw [history_append hc] at hu
          rcases List.mem_append.mp hu with hu | hu
          · exact Or.inl hu
          · rw [List.mem_singleton.mp hu]
            exact Or.inr ⟨v, rfl, rfl⟩
        · rw [history, hc, if_neg hid] at hu
          exact Or.inl hu
  | delete id' =>
      have hsame : (d.serve mint (.delete id')).2.history id = d.history id :=
        history_delete (d.count (.delete id')) id' id
      exact Or.inl (hsame ▸ hu)
  | _ => exact Or.inl hu

theorem Reachable.isLatestVersion (h : d.Reachable mint) (hm : mint.Fresh d.drawn)
    (hu : u ∈ d.history id) : u.isLatestVersion = true := by
  induction h with
  | empty => cases hu
  | @serve d h q ih =>
      have hm' := hm.mono (drawn_le_serve mint d q)
      rcases (h.sound hm').mem_history_serve hm hu with hu | ⟨v, rfl, hr⟩
      · exact ih hm' hu
      · cases eq_of_serve_save hr
        exact isLatestVersion_stage _ _ _

end Directory

end UserDirectory
