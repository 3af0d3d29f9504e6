import UserDirectory.Proofs.Directory.Paging
import UserDirectory.Proofs.Directory.Reads
import UserDirectory.Proofs.User.Patch

namespace UserDirectory

namespace Directory

variable {mint : Mint} {d : Directory} {u : User}

/-- A current user is patched: a version is appended to it, and all others are seen as before. -/
structure Patches (mint : Mint) (d : Directory) (u : User) (p : UserPatch) (d' : Directory) :
    Prop where
  performs : d.perform mint (PatchUserCommand.job ⟨u.id, p⟩) =
    (.ok (.user (u.patched p (mint d.drawn))), d')
  drawn : d'.drawn = d.drawn + 1
  sound : d'.Sound mint
  view : ∀ id, d'.view id = if id = u.id then some (u.patched p (mint d.drawn)) else d.view id

theorem Sound.patches (h : d.Sound mint) (hm : mint.Fresh (d.drawn + 1))
    (hu : d.view u.id = some u) (p : UserPatch) : ∃ d', d.Patches mint u p d' := by
  let d₁ := (d.count (.get u.id)).count (.save (u.apply p))
  have hsound : d₁.Sound mint := h.of_identities rfl (Nat.le_refl _)
  have hnil : (u.apply p).id ≠ .nil :=
    h.ne_nil_of_mem_history (hm.mono (Nat.le_succ _)) (mem_history_of_view hu)
  have hdrawn : (d₁.save mint (u.apply p)).2.drawn = d.drawn + 1 := by
    have hnext := drawn_serve_save mint (d.count (.get u.id)) (u.apply p)
    rw [User.stage, if_neg (Uuid.isNil_iff.not.mpr hnil)] at hnext
    exact hnext
  obtain ⟨i, hi, hlive, -⟩ := view_eq_some_iff.mp hu
  obtain ⟨v, hok, happends⟩ :=
    hsound.save_existing (hdrawn ▸ hm) (Uuid.isNil_iff.not.mpr hnil) hi hlive
  have hperform : d.perform mint (PatchUserCommand.job ⟨u.id, p⟩) =
      (.ok (.user v), (d₁.save mint (u.apply p)).2) := by
    have hserve : (d.count (.get u.id)).serve mint (.save (u.apply p)) =
        ((d₁.save mint (u.apply p)).1.map .user, (d₁.save mint (u.apply p)).2) := rfl
    rw [PatchUserCommand.job, perform_amend, hu]
    exact hserve.trans (by rw [hok]; rfl)
  have hv : v = u.patched p (mint d.drawn) := by
    have hsaved : ((d.count (.get u.id)).serve mint (.save (u.apply p))).1 = .ok (.user v) :=
      congrArg (Except.map StoreAnswer.user) hok
    have hstaged := eq_of_serve_save hsaved
    rw [User.stage, if_neg (Uuid.isNil_iff.not.mpr hnil)] at hstaged
    exact StoreAnswer.user.inj hstaged
  subst hv
  exact ⟨_, hperform, hdrawn, happends.sound, view_append happends.changes⟩

theorem Patches.view_self {d' : Directory} {p : UserPatch} (h : d.Patches mint u p d') :
    d'.view u.id = some (u.patched p (mint d.drawn)) := by
  rw [h.view, if_pos rfl]

/-- A second patch makes of the user what one patch would have made, but for the version id. -/
theorem Patches.exists_next {d' : Directory} {p : UserPatch} (h : d.Patches mint u p d')
    (hm : mint.Fresh (d.drawn + 2)) (q : UserPatch) :
    ∃ d'', d'.perform mint (PatchUserCommand.job ⟨u.id, q⟩) =
        (.ok (.user { u.patched (q.atop p) (mint d.drawn) with versionId := mint d'.drawn }), d'') ∧
      ∀ id, d''.view id =
        if id = u.id then
          some { u.patched (q.atop p) (mint d.drawn) with versionId := mint d'.drawn }
        else d'.view id := by
  obtain ⟨d'', hnext⟩ :=
    h.sound.patches (u := u.patched p (mint d.drawn)) (h.drawn ▸ hm) h.view_self q
  have hsame : (u.patched p (mint d.drawn)).patched q (mint d'.drawn) =
      { u.patched (q.atop p) (mint d.drawn) with versionId := mint d'.drawn } :=
    u.patched_patched p q _ _
  exact ⟨d'', hsame ▸ hnext.performs, fun id => hsame ▸ hnext.view id⟩

theorem exists_mem_query {filter : UserPatch} (hu : u ∈ d.matching filter) :
    ∃ offset, ∀ limit,
      u ∈ d.query ((QueryParams.filtered filter).withPagination offset limit) := by
  obtain ⟨offset, hlt, rfl⟩ := List.mem_iff_getElem.mp hu
  refine ⟨offset, fun limit => ?_⟩
  have hpage : d.query ((QueryParams.filtered filter).withPagination offset limit) =
      ((d.matching filter).drop offset).take (pageSize limit) := rfl
  rw [hpage, List.drop_eq_getElem_cons hlt]
  obtain ⟨n, hn⟩ := Nat.exists_eq_succ_of_ne_zero (pageSize_ne_zero limit)
  rw [hn, List.take_succ_cons]
  exact List.mem_cons_self

/-- A patch of a current user means the same fields when it is applied, listed or filtered by. What
it returns is `w`, and the directory after it is `d'`. -/
structure MeansItsFields (mint : Mint) (d : Directory) (u : User) (p : UserPatch) (w : User)
    (d' : Directory) : Prop where
  performs : d.perform mint (PatchUserCommand.job ⟨u.id, p⟩) = (.ok (.user w), d')
  id : w.id = u.id
  versionId : w.versionId = mint d.drawn
  fresh : ∀ id, ∀ v ∈ d.history id, v.versionId ≠ w.versionId
  listed : ∀ c ∈ contentColumns, ∀ v, (c, v) ∈ p.toList → w.column c = v
  unlisted : ∀ c ∈ contentColumns, (∀ v, (c, v) ∉ p.toList) → w.column c = u.column c
  /-- The same patch again gives the user another version id, and all else is seen as before. -/
  again : ∃ d'', d'.perform mint (PatchUserCommand.job ⟨u.id, p⟩) =
      (.ok (.user { w with versionId := mint d'.drawn }), d'') ∧
    ∀ id, d''.view id =
      if id = u.id then some { w with versionId := mint d'.drawn } else d'.view id
  followed : ∀ q, ∃ w₁ w₂ d₁ d₂,
    d'.perform mint (PatchUserCommand.job ⟨u.id, q⟩) = (.ok (.user w₁), d₁) ∧
      d.perform mint (PatchUserCommand.job ⟨u.id, q.atop p⟩) = (.ok (.user w₂), d₂) ∧
      w₁.content = w₂.content
  matched : p.id = .absent → p.versionId = .absent → w ∈ d'.matching p ∧
    ∃ offset, ∀ limit, w ∈ d'.query ((QueryParams.filtered p).withPagination offset limit)

theorem patch_means_its_fields (hd : d.Reachable mint) (hm : mint.Fresh (d.drawn + 2))
    (hu : u ∈ d.currentUsers) (p : UserPatch) : ∃ w d', d.MeansItsFields mint u p w d' := by
  have hsound := hd.sound (hm.mono (Nat.le_add_right _ 2))
  have hview := hsound.mem_currentUsers_iff.mp hu
  have hone : mint.Fresh (d.drawn + 1) := hm.mono (Nat.le_succ _)
  obtain ⟨d', hp⟩ := hsound.patches hone hview p
  refine ⟨u.patched p (mint d.drawn), d', hp.performs, rfl, rfl, ?_, ?_, ?_, ?_, ?_, ?_⟩
  · intro id v hv he
    obtain ⟨k, hk, hminted⟩ := hsound.versionId_minted hv
    exact (hone d.drawn (Nat.lt_succ_self _)).2 k hk (hminted.symm.trans he)
  · intro c hc v hcv
    rw [User.column_patched hc, UserPatch.mem_toList_iff.mp hcv, Option.getD_some]
  · intro c hc hnone
    have hvalue : p.value? c = none :=
      Option.eq_none_iff_forall_ne_some.mpr fun v hv => hnone v (UserPatch.mem_toList_iff.mpr hv)
    rw [User.column_patched hc, hvalue, Option.getD_none]
  · have hagain := hp.exists_next hm p
    rw [p.atop_self] at hagain
    exact hagain
  · intro q
    obtain ⟨d₁, hnext, -⟩ := hp.exists_next hm q
    obtain ⟨d₂, honce⟩ := hsound.patches hone hview (q.atop p)
    exact ⟨_, _, d₁, d₂, hnext, honce.performs, rfl⟩
  · intro hid hversionId
    have hmem : u.patched p (mint d.drawn) ∈ d'.matching p :=
      List.mem_filter.mpr ⟨hp.sound.mem_currentUsers_iff.mpr hp.view_self,
        User.isMatchedBy_patched hid hversionId u _⟩
    exact ⟨hmem, exists_mem_query hmem⟩

/-- Of two users the second is patched; the patch lists identifiers of the first as well. -/
theorem patch_means_its_fields_of_foreign_ids :
    let mint : Mint := fun n => .ofNat (n + 1)
    let d := serveAll mint {} [.save { email := "a@b" }, .save { email := "c@d", phone := "5" }]
    let u : User :=
      { id := mint 3, versionId := mint 2, isLatestVersion := true, email := "c@d", phone := "5" }
    let p : UserPatch :=
      { id := .present (mint 1), versionId := .present (mint 0), email := .present "a@b",
        phone := .present "" }
    let w : User := { u with versionId := mint 4, email := "a@b", phone := "" }
    d.Reachable mint ∧ mint.Fresh (d.drawn + 2) ∧ u ∈ d.currentUsers ∧
      ∃ d', d.MeansItsFields mint u p w d' := by
  intro mint d u p w
  have hd : d.Reachable mint := reachable_serveAll mint _
  have hm : mint.Fresh (d.drawn + 2) := by decide +kernel
  have hu : u ∈ d.currentUsers := by decide +kernel
  obtain ⟨w', d', h⟩ := patch_means_its_fields hd hm hu p
  have hw : (d.perform mint (PatchUserCommand.job ⟨u.id, p⟩)).1 = .ok (.user w) := by
    rw [PatchUserCommand.job, perform_amend]
    decide +kernel
  rw [h.performs] at hw
  cases hw
  exact ⟨hd, hm, hu, d', h⟩

end Directory

end UserDirectory
