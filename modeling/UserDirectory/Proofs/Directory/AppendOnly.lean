import UserDirectory.Proofs.Directory.Journal

namespace UserDirectory.Directory

variable {mint : Mint} {qs : List StoreRequest}

/-- What a directory that began empty makes of the requests that it serves. -/
structure AppendOnly (mint : Mint) (qs : List StoreRequest) : Prop where
  changes : ∀ {before q after}, qs = before ++ q :: after →
    ChangedBy (serveAll mint {} before) (serveAll mint {} (before ++ [q])) q
      ((serveAll mint {} before).serve mint q).1
  sorted : (serveAll mint {} qs).identities.Pairwise (·.id < ·.id)
  versions : ∀ i ∈ (serveAll mint {} qs).identities,
    i.versions = (journal mint {} qs).saves i.id ∧ i.versions ≠ [] ∧ ∀ u ∈ i.versions, u.id = i.id
  versionIds_nodup :
    ((serveAll mint {} qs).identities.flatMap fun i => i.versions.map (·.versionId)).Nodup
  getVersion : ∀ {u v}, (.save u, .ok (.user v)) ∈ journal mint {} qs →
    ((serveAll mint {} qs).serve mint (.getVersion v.versionId)).1 =
      .ok (.user { v with
        isLatestVersion := ((serveAll mint {} qs).history v.id).getLast? = some v })
  get : ∀ {id}, ¬ (journal mint {} qs).Deletes id →
    ((serveAll mint {} qs).serve mint (.get id)).1 =
      match ((journal mint {} qs).saves id).getLast? with
      | some v => .ok (.user v)
      | none => .error (.notFound id)
  deleted : ∀ {id}, (journal mint {} qs).Deletes id →
    ((serveAll mint {} qs).serve mint (.get id)).1 = .error (.notFound id) ∧
      ((serveAll mint {} qs).serve mint (.delete id)).1 = .error (.notFound id) ∧
      ∀ u, u.id = id → ((serveAll mint {} qs).serve mint (.save u)).1 = .error (.notFound id)

theorem append_only (hm : mint.Fresh (serveAll mint {} qs).drawn) : AppendOnly mint qs := by
  have hreach := reachable_serveAll mint qs
  have hsound := hreach.sound hm
  refine ⟨?_, hsound.sorted, ?_, hreach.versionIds_nodup hm, ?_, ?_, ?_⟩
  · intro before q after hsplit
    have hafter : qs = (before ++ [q]) ++ after := by simp [hsplit]
    have hm₂ := hm.mono (hafter ▸ drawn_le_serveAll mint {} (before ++ [q]) after)
    have hm₁ := hm₂.mono (drawn_le_serveAll mint {} before [q])
    rw [serveAll_append] at hm₂ ⊢
    exact ((reachable_serveAll mint before).sound hm₁).changedBy_serve hm₂
  · intro i hi
    have hfound := hsound.identity (hsound.identity?_of_mem hi)
    refine ⟨?_, hfound.versions_ne_nil, hfound.owned⟩
    rw [hsound.versions_of_mem hi, history_serveAll hm]
  · intro u v hv
    have hmem : v ∈ (serveAll mint {} qs).history v.id := by
      rw [history_serveAll hm]
      exact Journal.mem_saves.mpr ⟨⟨u, hv⟩, rfl⟩
    exact congrArg (Except.map StoreAnswer.user) (hreach.getVersion_of_mem hm hmem)
  · intro id hlive
    have hview : (serveAll mint {} qs).view id = ((journal mint {} qs).saves id).getLast? := by
      rw [view_of_live (mt (isDeleted_serveAll hm id).mp hlive), history_serveAll hm]
    refine (serve_get mint (serveAll mint {} qs) id).trans ?_
    cases hlast : ((journal mint {} qs).saves id).getLast? with
    | none =>
        rw [hlast] at hview
        simp only [hview]
    | some v =>
        rw [hlast] at hview
        simp only [hview]
  · intro id hdeletes
    have hdeleted := (isDeleted_serveAll hm id).mpr hdeletes
    refine ⟨?_, ?_, ?_⟩
    · rw [serve_get, hdeleted.view_eq_none]
    · have hcount : ((serveAll mint {} qs).count (.delete id)).IsDeleted id := hdeleted
      exact congrArg (Except.map fun _ => StoreAnswer.done) hcount.delete
    · rintro u rfl
      have hnil := hsound.ne_nil_of_isDeleted hm hdeleted
      have hcount : ((serveAll mint {} qs).count (.save u)).IsDeleted u.id := hdeleted
      exact congrArg (Except.map StoreAnswer.user) (hcount.save hnil)

/-- A user is created, saved over, deleted and saved once more, beside another user. -/
theorem append_only_of_deleted_user :
    let mint : Mint := fun n => .ofNat (n + 1)
    let u : User := { id := mint 1, versionId := mint 0, isLatestVersion := true }
    let v : User := { u with versionId := mint 2, firstName := "Ada" }
    let qs := [.save {}, .save { id := mint 1, firstName := "Ada" }, .save { email := "a" },
      .delete (mint 1), .save v]
    (journal mint {} qs).saves (mint 1) = [u, v] ∧ (journal mint {} qs).Deletes (mint 1) ∧
      mint.Fresh (serveAll mint {} qs).drawn ∧ AppendOnly mint qs := by
  intro mint u v qs
  have hm : mint.Fresh (serveAll mint {} qs).drawn := by decide +kernel
  have hdeletes : (.delete (mint 1), .ok .done) ∈ journal mint {} qs := by decide +kernel
  exact ⟨by decide +kernel, hdeletes, hm, append_only hm⟩

end UserDirectory.Directory
