import UserDirectory.Proofs.Directory.Versions
import UserDirectory.User.Patch

namespace UserDirectory

def User.content (u : User) : User :=
  { u with id := .nil, versionId := .nil, isLatestVersion := false }

theorem User.content_stage (mint : Mint) (n : Nat) (u : User) :
    (u.stage mint n).user.content = u.content := by
  simp only [stage]
  split <;> rfl

/-- Whether a request is for no change of a certain user. -/
def StoreRequest.Spares (id : Uuid) : StoreRequest → Prop
  | .save u => u.id ≠ id
  | .delete id' => id' ≠ id
  | _ => True

theorem StoreRequest.spares_of_not_isWrite {q : StoreRequest} (h : ¬ q.IsWrite) (id : Uuid) :
    q.Spares id := by
  cases q with
  | save u => exact absurd trivial h
  | delete id' => exact absurd trivial h
  | _ => trivial

/-- What becomes of an identity when a save of it has got a reply. -/
def Identity.after (i : Identity) : StoreReply → Identity
  | .ok (.user v) => { i with versions := i.versions ++ [v] }
  | _ => i

theorem Identity.after_of_ne (i : Identity) {r : StoreReply} (hr : ∀ v, r ≠ .ok (.user v)) :
    i.after r = i := by
  rcases r with e | a
  · rfl
  · cases a with
    | user v => exact absurd rfl (hr v)
    | users us => rfl
    | done => rfl

namespace Directory

variable {mint : Mint} {d d' d'' : Directory} {id : Uuid} {u v w : User} {q : StoreRequest}
  {i : Identity} {r : StoreReply}

/-- Whether a user is as it was before, but that it may have been created. -/
structure Spares (id : Uuid) (d d' : Directory) : Prop where
  identity : ∀ i, d.identity? id = some i → d'.identity? id = some i
  stale : ∀ u, u.id = id → d'.Stale u → d.Stale u

/-- Whether all that has become of a user is what a save with a certain reply makes of it. -/
structure Takes (id : Uuid) (d d' : Directory) (r : StoreReply) : Prop where
  identity : ∀ i, d.identity? id = some i → d'.identity? id = some (i.after r)
  stale : ∀ u, u.id = id → d'.Stale u →
    d.Stale u ∨ ∃ v, r = .ok (.user v) ∧ v.id = id ∧ d'.Superseded id (.user v) u

theorem Spares.refl (id : Uuid) (d : Directory) : d.Spares id d :=
  ⟨fun _ hi => hi, fun _ _ hu => hu⟩

theorem Spares.trans (h : d.Spares id d') (h' : d'.Spares id d'') : d.Spares id d'' where
  identity i hi := h'.identity i (h.identity i hi)
  stale u hid hu := h.stale u hid (h'.stale u hid hu)

theorem Spares.of_identities (h : d'.identities = d.identities) : d.Spares id d' where
  identity i hi := by
    rw [identity?, h]
    exact hi
  stale u _ hu := (stale_congr h u).mp hu

theorem Spares.takes (h : d.Spares id d') (hr : ∀ v, r ≠ .ok (.user v)) : d.Takes id d' r where
  identity i hi := by
    rw [i.after_of_ne hr]
    exact h.identity i hi
  stale u hid hu := Or.inl (h.stale u hid hu)

theorem Takes.trans (h : d.Takes id d' r) (h' : d'.Spares id d'') (he : d'.Extends d'') :
    d.Takes id d'' r where
  identity i hi := h'.identity _ (h.identity i hi)
  stale u hid hu := by
    rcases h.stale u hid (h'.stale u hid hu) with hu | ⟨v, hr, hv, hu⟩
    · exact Or.inl hu
    · exact Or.inr ⟨v, hr, hv, hu.mono he⟩

theorem Spares.view (h : d.Spares id d') (hv : d.view id = some v) : d'.view id = some v := by
  obtain ⟨i, hi, hlive, hlast⟩ := view_eq_some_iff.mp hv
  exact view_eq_some_iff.mpr ⟨i, h.identity i hi, hlive, hlast⟩

theorem Takes.view (h : d.Takes id d' (.ok (.user w))) (hv : d.view id = some v) :
    d'.view id = some w := by
  obtain ⟨i, hi, hlive, -⟩ := view_eq_some_iff.mp hv
  exact view_eq_some_iff.mpr ⟨_, h.identity i hi, hlive, List.getLast?_concat⟩

theorem Takes.view_of_ne (h : d.Takes id d' r) (hr : ∀ w, r ≠ .ok (.user w))
    (hv : d.view id = some v) : d'.view id = some v := by
  obtain ⟨i, hi, hlive, hlast⟩ := view_eq_some_iff.mp hv
  have hi' := h.identity i hi
  rw [i.after_of_ne hr] at hi'
  exact view_eq_some_iff.mpr ⟨i, hi', hlive, hlast⟩

theorem drawn_serve_save (mint : Mint) (d : Directory) (u : User) :
    (d.serve mint (.save u)).2.drawn = (u.stage mint d.drawn).next := by
  have hserve : (d.serve mint (.save u)).2 = ((d.count (.save u)).save mint u).2 := rfl
  rw [hserve]
  simp only [save]
  split
  · split <;> rfl
  · rfl

theorem Sound.id_stage_ne (h : d.Sound mint) (hm : mint.Fresh (d.serve mint (.save u)).2.drawn)
    (hi : d.identity? id = some i) (hu : u.id ≠ id) : id ≠ (u.stage mint d.drawn).user.id := by
  rw [drawn_serve_save] at hm
  simp only [User.stage] at hm ⊢
  split at hm
  · rename_i hnil
    rw [if_pos hnil]
    rintro rfl
    obtain ⟨k, hk, he⟩ := (h.identity hi).minted
    rw [id_of_identity? hi] at he
    exact (hm (d.drawn + 1) (Nat.lt_succ_self _)).2 k (Nat.lt_succ_of_lt hk) he.symm
  · rename_i hnil
    rw [if_neg hnil]
    exact fun he => hu he.symm

theorem Sound.id_stage (h : d.Sound mint) (hm : mint.Fresh d.drawn)
    (hi : d.identity? u.id = some i) : (u.stage mint d.drawn).user.id = u.id := by
  obtain ⟨k, hk, he⟩ := (h.identity hi).minted
  rw [id_of_identity? hi] at he
  have hnil : ¬ u.id.isNil = true := by
    rw [Uuid.isNil_iff, he]
    exact (hm k hk).1
  simp only [User.stage, if_neg hnil]

theorem Sound.spares_serve (h : d.Sound mint) (hm : mint.Fresh (d.serve mint q).2.drawn)
    (hq : q.Spares id) : d.Spares id (d.serve mint q).2 := by
  by_cases hw : q.IsWrite
  · rcases hr : (d.serve mint q).1 with e | a
    · exact .of_identities (h.identities_serve hm hw hr)
    · cases q with
      | save u =>
          obtain ⟨v, rfl, -, hc⟩ := serve_save_ok h hm hr
          cases eq_of_serve_save hr
          refine ⟨?_, ?_⟩
          · intro i hi
            rw [hc, if_neg (h.id_stage_ne hm hi hq)]
            exact hi
          · rintro x rfl hx
            by_cases hid : x.id = (u.stage mint d.drawn).user.id
            · -- The user has just been created, and what is there of it is seen.
              have hnone : d.history x.id = [] := by
                rcases hi : d.identity? x.id with _ | i
                · simp [history, hi]
                · exact absurd hid (h.id_stage_ne hm hi hq)
              have hmem := hx.1
              rw [hid, history_append hc, ← hid, hnone] at hmem
              have hview := hx.2
              rw [view_append hc, if_pos hid, List.mem_singleton.mp hmem] at hview
              exact absurd rfl hview
            · exact hc.stale hx hid
      | delete id' =>
          obtain ⟨j, -, rfl, -, hc⟩ := serve_delete_ok h hr
          refine ⟨?_, ?_⟩
          · intro i hi
            rw [hc, if_neg fun he => hq he.symm]
            exact hi
          · rintro x rfl hx
            exact hc.stale hx fun he => hq he.symm
      | _ => exact hw.elim
  · exact .of_identities (identities_of_contents (contents_serve mint d hw))

/-- A save of a user that others have spared makes of it what its reply says. -/
theorem Spares.takes_serve (hs : d.Spares u.id d') (h : d'.Sound mint)
    (hm : mint.Fresh (d'.serve mint (.save u)).2.drawn) :
    d.Takes u.id (d'.serve mint (.save u)).2 (d'.serve mint (.save u)).1 := by
  rcases hr : (d'.serve mint (.save u)).1 with e | a
  · exact (hs.trans (.of_identities (h.identities_serve hm trivial hr))).takes (by simp)
  · obtain ⟨id, hconcerns, hstale⟩ := h.stale_serve hm trivial hr
    obtain ⟨v, rfl, hlive, hc⟩ := serve_save_ok h hm hr
    obtain ⟨_, ⟨⟩, rfl⟩ := hconcerns
    refine ⟨?_, ?_⟩
    · intro i hi
      have hi' := hs.identity i hi
      have hid : v.id = u.id := by
        cases eq_of_serve_save hr
        exact h.id_stage (hm.mono (drawn_le_serve mint d' _)) hi'
      have hversions : d'.history u.id = i.versions := by simp [history, hi']
      have hpresent : i.isDeleted = false := by
        by_contra hdeleted
        exact hlive ⟨i, hid ▸ hi', by simpa using hdeleted⟩
      rw [hc, if_pos hid.symm, hid, hversions, Identity.after, ← hpresent, ← id_of_identity? hi']
    · intro x hid hx
      rcases hstale x hx with hx | hx
      · exact Or.inl (hs.stale x hid hx)
      · have hv : v.id = u.id := hx.id_eq.symm.trans hid
        exact Or.inr ⟨v, rfl, hv, hv ▸ hx⟩

end Directory

end UserDirectory
