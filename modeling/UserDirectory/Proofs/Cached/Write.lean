import UserDirectory.Proofs.Cached.Read

namespace UserDirectory

/-- A request that changes the store, what holds until the store has served it, what the store may
have replied to it, and what holds once the entry of the user has been dropped. -/
structure Duty where
  request : StoreRequest
  unserved : Prop
  reply : StoreReply → Prop
  dropped : Uuid → StoreAnswer → Prop

/-- Whether a stage is one of a write. -/
def Stage.Writes (y : Duty) : Stage → Prop
  | .readReplaced u | .save u _ => y.request = .save u
  | .readDoomed id | .delete id _ => y.request = .delete id
  | .awaitDrop id _ a | .dropEntry id _ a => y.reply (.ok a) ∧ y.request.Concerns id a
  | .dropIndex _ (.answer _ a) =>
    y.reply (.ok a) ∧ ∃ id, y.request.Concerns id a ∧ y.dropped id a
  | _ => False

/-- Whether a stage comes before the reply of the store to a write. -/
def Stage.IsUnserved : Stage → Prop
  | .readReplaced _ | .save _ _ | .readDoomed _ | .delete _ _ => True
  | _ => False

/-- Whether a task serves a write, and has its reply from the store. -/
def Process.Writes (y : Duty) (p : Process) : Prop :=
  p.stage.Writes y ∧
    (p.stage.IsUnserved →
      match p.standing with
      | .replied (.store r) => y.reply r
      | _ => y.unserved)

variable {w : Wiring} {f : Fences} {y y' : Duty} {st st' : Stage} {r : Reply} {sd : Standing}

theorem Stage.Writes.mono (h : st.Writes y) (hq : y'.request = y.request)
    (hr : ∀ r, y.reply r → y'.reply r) (hd : ∀ id a, y.dropped id a → y'.dropped id a) :
    st.Writes y' := by
  cases st with
  | readReplaced u => exact hq.trans h
  | save u replaced => exact hq.trans h
  | readDoomed id => exact hq.trans h
  | delete id email => exact hq.trans h
  | awaitDrop id emails a => exact ⟨hr _ h.1, hq ▸ h.2⟩
  | dropEntry id emails a => exact ⟨hr _ h.1, hq ▸ h.2⟩
  | dropIndex email afterwards =>
      cases afterwards with
      | lookUp email n => exact h.elim
      | answer emails a =>
          obtain ⟨hreply, id, hdrops, hdropped⟩ := h
          exact ⟨hr _ hreply, id, hq ▸ hdrops, hd id a hdropped⟩
  | _ => exact h.elim

theorem Process.Writes.mono {p : Process} (h : p.Writes y) (hq : y'.request = y.request)
    (hu : y.unserved → y'.unserved) (hr : ∀ r, y.reply r → y'.reply r)
    (hd : ∀ id a, y.dropped id a → y'.dropped id a) : p.Writes y' := by
  refine ⟨h.1.mono hq hr hd, fun hst => ?_⟩
  have h₂ := h.2 hst
  split at h₂
  · exact hr _ h₂
  · exact hu h₂

theorem Process.Writes.of_standing {sd' : Standing} (h : Process.Writes y ⟨st, sd⟩)
    (hsd : st.IsUnserved → ∀ r, sd ≠ .replied (.store r)) (hsd' : ∀ r, sd' ≠ .replied (.store r)) :
    Process.Writes y ⟨st, sd'⟩ := by
  refine ⟨h.1, fun hst => ?_⟩
  have h₂ := h.2 hst
  split at h₂
  · rename_i r hr
    exact absurd hr (hsd hst r)
  · exact h₂

theorem Stage.Successor.writes (h : st.Successor w f r st')
    (hw : Process.Writes y ⟨st, .replied r⟩)
    (hdrop : ∀ id emails a, st = .dropEntry id emails a → y.dropped id a) :
    Process.Writes y ⟨st', .ready⟩ := by
  cases h with
  | replacing => exact ⟨hw.1, fun _ => hw.2 trivial⟩
  | @saved u v replaced =>
      have hq : y.request = .save v := hw.1
      refine ⟨⟨hw.2 trivial, ?_⟩, fun hst => hst.elim⟩
      rw [hq]
      exact ⟨u, rfl, rfl⟩
  | doomed => exact ⟨hw.1, fun _ => hw.2 trivial⟩
  | @deleted id email a =>
      have hq : y.request = .delete id := hw.1
      refine ⟨⟨hw.2 trivial, ?_⟩, fun hst => hst.elim⟩
      rw [hq]
      exact rfl
  | ticked => exact ⟨hw.1, fun hst => hst.elim⟩
  | dropped => exact ⟨⟨hw.1.1, _, hw.1.2, hdrop _ _ _ rfl⟩, fun hst => hst.elim⟩
  | indexDropped => exact ⟨hw.1, fun hst => hst.elim⟩
  | _ => exact hw.1.elim

theorem Stage.Results.reply_of_writes {a : StoreReply} (h : st.Results w r a)
    (hw : Process.Writes y ⟨st, .replied r⟩) : y.reply a := by
  cases h with
  | saved hr => exact hw.2 trivial
  | deleted hr => exact hw.2 trivial
  | dropped => exact hw.1.1
  | indexDropped => exact hw.1.1
  | _ => exact hw.1.elim

theorem Stage.Results.writes {a : StoreReply} (h : st.Results w r a)
    (hw : Process.Writes y ⟨st, .replied r⟩) (hsome : w.isNone = false)
    (hdrop : ∀ id emails a, st = .dropEntry id emails a → y.dropped id a) :
    y.reply a ∧ ∀ b id, a = .ok b → y.request.Concerns id b →
      ∃ id', y.request.Concerns id' b ∧ y.dropped id' b := by
  refine ⟨h.reply_of_writes hw, ?_⟩
  cases h with
  | saved hr =>
      rintro b id rfl hdrops
      have hq : y.request = .save _ := hw.1
      rw [hq] at hdrops
      obtain ⟨v, rfl, -⟩ := hdrops
      rcases hr with hr | hr
      · rw [hsome] at hr
        cases hr
      · exact absurd rfl (hr v)
  | deleted hr =>
      rintro b id rfl hdrops
      rcases hr with hr | hr
      · rw [hsome] at hr
        cases hr
      · exact absurd rfl (hr b)
  | dropped =>
      rintro b id ⟨⟩ hdrops
      exact ⟨_, hw.1.2, hdrop _ _ _ rfl⟩
  | indexDropped =>
      rintro b id ⟨⟩ hdrops
      exact hw.1.2
  | _ => exact hw.1.elim

theorem Job.Starts.writes {j : Job} (h : j.Starts w f st) (hj : j = .request y.request)
    (hq : y.request.IsWrite) (hu : y.unserved) : Process.Writes y ⟨st, .ready⟩ := by
  refine ⟨?_, fun _ => hu⟩
  cases h with
  | replace => exact (Job.request.inj hj).symm
  | save => exact (Job.request.inj hj).symm
  | doom => exact (Job.request.inj hj).symm
  | delete => exact (Job.request.inj hj).symm
  | amend => cases hj
  | amendStored => cases hj
  | _ =>
      have hrequest := Job.request.inj hj
      rw [← hrequest] at hq
      exact hq.elim

namespace System

variable {mint : Mint} {s s' : System} {es : List Event} {t : TaskId}

/-- Whether a step of a system carries a write of a task on, from one duty to the next. -/
structure Furthers (mint : Mint) (s : System) (es : List Event) (t : TaskId) (y y' : Duty) :
    Prop where
  request : y'.request = y.request
  unserved : (∀ q r, .served t q r ∉ es) → y.unserved → y'.unserved
  reply : (∀ q r, .served t q r ∉ es) → ∀ r, y.reply r → y'.reply r
  dropped : ∀ id a, y.dropped id a → y'.dropped id a
  served : ∀ {q}, .served t q (s.store.serve mint q).1 ∈ es → y.request = q → y.unserved →
    y'.reply (s.store.serve mint q).1
  refused : ∀ {q e}, .refused t q e ∈ es → y.unserved → y'.reply (.error e)
  dropping : ∀ {id emails a x}, s.tasks t = some ⟨.dropEntry id emails a, .replied (.cache x)⟩ →
    .turned t (.dropEntry id emails a) (.cache x) ∈ es → y'.dropped id a

theorem Origin.writes {p : Process} (hp : Origin w mint s es s' t p) (ho : Tidy w s)
    (ht : t < s.nextTask) (hy : s.Furthers mint es t y y')
    (h : ∀ p, s.tasks t = some p → p.Writes y) : p.Writes y' := by
  have hmono : ∀ {p}, (∀ q r, .served t q r ∉ es) → s.tasks t = some p → p.Writes y' :=
    fun hes hp => (h _ hp).mono hy.request (hy.unserved hes) (hy.reply hes) hy.dropped
  have hfits : ∀ {st sd}, s.tasks t = some ⟨st, sd⟩ → (∃ q, st.request w = .cache q) →
      ∀ r, sd ≠ .replied (.store r) := by
    rintro st sd hst ⟨q, hq⟩ r rfl
    have hfits := ho.fits _ _ hst _ rfl
    rw [hq] at hfits
    exact hfits
  cases hp with
  | same hst hes => exact hmono hes hst
  | begun hj hu hes => exact absurd hu (Nat.ne_of_lt ht)
  | spawned hu hst hn => exact absurd hn (Nat.ne_of_lt ht)
  | @turned st st' r hst hnext hes hs' =>
      have hsucc := ho.successor hst hnext
      refine hsucc.writes (hmono (by simp [hes]) hst) ?_
      rintro id emails a rfl
      obtain ⟨x, rfl⟩ := (ho.fits _ _ hst _ rfl).cache
      exact hy.dropping hst (by simp [hes])
  | queued hst ha hes => exact (hmono hes hst).of_standing (by simp) (by simp)
  | @granted st sd hst ha hes =>
      refine (hmono hes hst).of_standing ?_ (by simp)
      intro hu
      cases st <;> first | exact hu.elim | exact absurd rfl ha
  | exchanged hst hq hes hcache =>
      exact (hmono (by simp [hes]) hst).of_standing (by simp) (by simp)
  | failed hst hq hes =>
      exact (hmono (by simp [hes]) hst).of_standing (fun _ => hfits hst ⟨_, hq⟩) (by simp)
  | @served st q hst hq hes hstore =>
      obtain ⟨hstage, hunserved⟩ := h _ hst
      cases st with
      | save u replaced =>
          cases hq
          have hreq : y.request = .save u := hstage
          exact ⟨hy.request.trans hreq,
            fun _ => hy.served (by simp [hes]) hreq (hunserved trivial)⟩
      | delete id email =>
          cases hq
          have hreq : y.request = .delete id := hstage
          exact ⟨hy.request.trans hreq,
            fun _ => hy.served (by simp [hes]) hreq (hunserved trivial)⟩
      | _ => first | exact hstage.elim | cases hq
  | @refused st q e hst hq hkind hes =>
      obtain ⟨hstage, hunserved⟩ := h _ hst
      have hmem : .refused t q e ∈ es := by simp [hes]
      cases st with
      | save u replaced =>
          have hreq : y.request = .save u := hstage
          exact ⟨hy.request.trans hreq, fun _ => hy.refused hmem (hunserved trivial)⟩
      | delete id email =>
          have hreq : y.request = .delete id := hstage
          exact ⟨hy.request.trans hreq, fun _ => hy.refused hmem (hunserved trivial)⟩
      | _ => first | exact hstage.elim | cases hq

end System

end UserDirectory
