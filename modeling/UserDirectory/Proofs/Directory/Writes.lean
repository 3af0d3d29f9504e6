import UserDirectory.Proofs.Directory

namespace UserDirectory

def StoreRequest.IsWrite : StoreRequest → Prop
  | .save _ | .delete _ => True
  | _ => False

theorem StoreRequest.IsRead.not_isWrite {q : StoreRequest} (h : q.IsRead) : ¬ q.IsWrite := by
  cases q with
  | get id => exact fun hw => hw
  | getByEmail email => exact fun hw => hw
  | _ => exact h.elim

/-- Whether an answer to a request is one about a user. -/
def StoreRequest.Concerns : StoreRequest → Uuid → StoreAnswer → Prop
  | .save _, id, a => ∃ v, a = .user v ∧ v.id = id
  | .delete id', id, _ => id' = id
  | _, _, _ => False

theorem StoreRequest.Concerns.isWrite {q : StoreRequest} {id : Uuid} {a : StoreAnswer}
    (h : q.Concerns id a) : q.IsWrite := by
  cases q with
  | save u => trivial
  | delete id => trivial
  | _ => exact h.elim

theorem StoreRequest.Concerns.unique {q : StoreRequest} {id id' : Uuid} {a : StoreAnswer}
    (h : q.Concerns id a) (h' : q.Concerns id' a) : id = id' := by
  cases q with
  | save u =>
      obtain ⟨v, rfl, hid⟩ := h
      obtain ⟨v', ha, hid'⟩ := h'
      cases ha
      exact hid.symm.trans hid'
  | delete id'' => exact Eq.trans (Eq.symm h) h'
  | _ => exact h.elim

/-- Whether the store bears out the answer with which an invalidation of a user goes on. -/
def Directory.Confirms (d : Directory) (id : Uuid) : StoreAnswer → Prop
  | .user v => v.id = id ∧ v ∈ d.history id
  | .done => d.IsDeleted id
  | .users _ => False

/-- Whether a user is no longer to be seen after such an answer. -/
def Directory.Superseded (d : Directory) (id : Uuid) : StoreAnswer → User → Prop
  | .user v, u => u.id = id ∧ [u, v].Sublist (d.history id)
  | .done, u => u.id = id
  | .users _, _ => False

namespace Directory

variable {mint : Mint} {d d' : Directory} {id : Uuid} {a : StoreAnswer} {u : User}

theorem IsDeleted.view_eq_none (h : d.IsDeleted id) : d.view id = none := by
  obtain ⟨i, hi, hdeleted⟩ := h
  simp [view, hi, Identity.current?, hdeleted]

theorem Superseded.id_eq (h : d.Superseded id a u) : u.id = id := by
  cases a with
  | user v => exact h.1
  | done => exact h
  | users us => exact h.elim

theorem Confirms.mono (h : d.Confirms id a) (he : d.Extends d') : d'.Confirms id a := by
  cases a with
  | user v => exact ⟨h.1, (he.history id).subset h.2⟩
  | done => exact he.isDeleted id h
  | users us => exact h

theorem Superseded.of_extends (h : d'.Superseded id a u) (hc : d.Confirms id a)
    (he : d.Extends d') (hd' : d'.Sound mint) : d.Superseded id a u := by
  cases a with
  | user v => exact ⟨h.1, he.sublist_of_mem hd' hc.2 h.2⟩
  | done => exact h
  | users us => exact h

theorem Superseded.mono (h : d.Superseded id a u) (he : d.Extends d') :
    d'.Superseded id a u := by
  cases a with
  | user v => exact ⟨h.1, h.2.trans (he.history id).sublist⟩
  | done => exact h
  | users us => exact h.elim

theorem Superseded.ne_view (h : d.Superseded id a u) (hc : d.Confirms id a)
    (hd : d.Sound mint) : d.view u.id ≠ some u := by
  have hid := h.id_eq
  rw [hid]
  cases a with
  | user v => exact hd.ne_view_of_sublist h.2
  | done =>
      have hdeleted : d.IsDeleted id := hc
      rw [hdeleted.view_eq_none]
      simp
  | users us => exact h.elim

theorem sublist_of_view {v : User} (hu : u ∈ d.history id) (hv : d.view id = some v)
    (hne : u ≠ v) : [u, v].Sublist (d.history id) := by
  obtain ⟨older, holder⟩ := List.getLast?_eq_some_iff.mp (getLast?_history_of_view hv)
  rw [holder] at hu ⊢
  rcases List.mem_append.mp hu with hu | hu
  · exact (List.singleton_sublist.mpr hu).append (List.Sublist.refl [v])
  · exact absurd (List.mem_singleton.mp hu) hne

/-- Whether a user was saved and is not to be seen any more. -/
def Stale (d : Directory) (u : User) : Prop := u ∈ d.history u.id ∧ d.view u.id ≠ some u

theorem Stale.mono (h : d.Stale u) (hd : d.Sound mint) (he : d.Extends d')
    (hd' : d'.Sound mint) : d'.Stale u := by
  refine ⟨(he.history u.id).subset h.1, ?_⟩
  rcases hv : d.view u.id with _ | v
  · rcases hd.view_eq_none hv with hnone | hdeleted
    · have hu := h.1
      simp [history, hnone] at hu
    · rw [(he.isDeleted u.id hdeleted).view_eq_none]
      simp
  · have hne : u ≠ v := by
      rintro rfl
      exact h.2 hv
    exact hd'.ne_view_of_sublist ((sublist_of_view h.1 hv hne).trans (he.history u.id).sublist)

theorem Changes.stale {i : Identity} (hc : d.Changes d' i) (h : d'.Stale u) (hid : u.id ≠ i.id) :
    d.Stale u := by
  have hsame : d'.identity? u.id = d.identity? u.id := by rw [hc, if_neg hid]
  rwa [Stale, history, view, hsame] at h

/-- A write that succeeds supersedes all that it makes stale. -/
theorem Sound.stale_serve {q : StoreRequest} (h : d.Sound mint)
    (hm : mint.Fresh (d.serve mint q).2.drawn) (hq : q.IsWrite) (hr : (d.serve mint q).1 = .ok a) :
    ∃ id, q.Concerns id a ∧ ∀ u, (d.serve mint q).2.Stale u →
      d.Stale u ∨ (d.serve mint q).2.Superseded id a u := by
  cases q with
  | save u₀ =>
      obtain ⟨v, rfl, hlive, hc⟩ := serve_save_ok h hm hr
      refine ⟨v.id, ⟨v, rfl, rfl⟩, ?_⟩
      intro u hu
      by_cases hid : u.id = v.id
      · have hv : (d.serve mint (.save u₀)).2.view v.id = some v := by
          rw [view_append hc, if_pos rfl]
        have hne : u ≠ v := by
          rintro rfl
          exact hu.2 hv
        exact Or.inr ⟨hid, sublist_of_view (hid ▸ hu.1) hv hne⟩
      · exact Or.inl (hc.stale hu hid)
  | delete id =>
      obtain ⟨i, rfl, rfl, -, hc⟩ := serve_delete_ok h hr
      refine ⟨i.id, rfl, ?_⟩
      intro u hu
      by_cases hid : u.id = i.id
      · exact Or.inr hid
      · exact Or.inl (hc.stale hu hid)
  | _ => exact hq.elim

end Directory

end UserDirectory
