import UserDirectory.Proofs.Directory.Contents

namespace UserDirectory.Directory

variable {mint : Mint} {d d' : Directory} {email : String} {u v : User}

/-- Whether a user has an email, and no user of lower id has it. -/
structure IsFirst (d : Directory) (email : String) (u : User) : Prop where
  view : d.view u.id = some u
  email_eq : u.email = email
  le : ∀ v, d.view v.id = some v → v.email = email → u.id ≤ v.id

theorem IsFirst.unique (h : d.IsFirst email u) (h' : d.IsFirst email v) : u = v := by
  have hle : u.id.toNat ≤ v.id.toNat := h.le v h'.view h'.email_eq
  have hge : v.id.toNat ≤ u.id.toNat := h'.le u h.view h.email_eq
  have hid : u.id = v.id := Uuid.ext_toNat (Nat.le_antisymm hle hge)
  have hview := h.view
  rw [hid, h'.view] at hview
  exact (Option.some.inj hview).symm

theorem IsFirst.congr (h : d'.contents = d.contents) (hu : d.IsFirst email u) :
    d'.IsFirst email u where
  view := (view_congr h u.id).trans hu.view
  email_eq := hu.email_eq
  le v hv he := hu.le v ((view_congr h v.id).symm.trans hv) he

theorem pairwise_currentUsers (hsorted : d.identities.Pairwise (·.id < ·.id))
    (hid : ∀ i ∈ d.identities, ∀ u, i.current? = some u → u.id = i.id) :
    d.currentUsers.Pairwise (·.id < ·.id) := by
  rw [currentUsers, List.pairwise_filterMap]
  refine hsorted.imp_of_mem ?_
  intro i j hi hj hlt u hu v hv
  rw [hid i hi u hu, hid j hj v hv]
  exact hlt

theorem Sound.pairwise_currentUsers (h : d.Sound mint) :
    d.currentUsers.Pairwise (·.id < ·.id) := by
  refine Directory.pairwise_currentUsers h.sorted ?_
  intro i hi u hu
  have hview : d.view i.id = some u := by
    rw [view, h.identity?_of_mem hi]
    exact hu
  exact h.id_of_view hview

theorem Sound.isFirst_of_serve (h : d.Sound mint)
    (hr : (d.serve mint (.getByEmail email)).1 = .ok (.user u)) : d.IsFirst email u := by
  obtain ⟨hview, he⟩ := serve_getByEmail_ok h hr
  refine ⟨hview, he, ?_⟩
  intro v hv hve
  rw [serve_getByEmail] at hr
  split at hr
  · rename_i w hw
    cases hr
    obtain ⟨-, before, after, hsplit, hbefore⟩ := List.find?_eq_some_iff_append.mp hw
    have hsorted := h.pairwise_currentUsers
    have hmem := h.mem_currentUsers_iff.mpr hv
    rw [hsplit] at hsorted hmem
    rcases List.mem_append.mp hmem with hmem | hmem
    · simpa [hve] using hbefore v hmem
    · rcases List.mem_cons.mp hmem with rfl | hmem
      · exact Nat.le_refl _
      · have hlater := (List.pairwise_append.mp hsorted).2.1
        exact Nat.le_of_lt ((List.pairwise_cons.mp hlater).1 v hmem)
  · cases hr

theorem Sound.serve_getByEmail_iff (h : d.Sound mint) :
    (d.serve mint (.getByEmail email)).1 = .ok (.user u) ↔ d.IsFirst email u := by
  constructor
  · exact h.isFirst_of_serve
  · intro hu
    rcases serve_getByEmail_cases mint d email with hnone | ⟨v, hv⟩
    · exact absurd hu.email_eq (h.serve_getByEmail_eq_error.mp hnone u hu.view)
    · rw [hv, (h.isFirst_of_serve hv).unique hu]

end UserDirectory.Directory
