import UserDirectory.Proofs.Cached.Ledger

namespace UserDirectory

inductive Command
  | create (c : CreateUserCommand)
  | update (c : UpdateUserCommand)
  | patch (c : PatchUserCommand)
  | delete (c : DeleteUserCommand)

namespace Command

def job : Command → Except UserError Job
  | .create c => .ok c.job
  | .update c => c.job
  | .patch c => .ok c.job
  | .delete c => .ok c.job

def target? : Command → Option Uuid
  | .create _ => none
  | .update c => some c.userId
  | .patch c => some c.userId
  | .delete c => some c.userId

/-- Whether a command may give a user with an id to be saved. -/
def Saves : Command → Uuid → Prop
  | .create _, id => id = .nil
  | .update c, id => id = c.userId ∧ id ≠ .nil
  | .patch c, id => id = c.userId ∧ id ≠ .nil
  | .delete _, _ => False

def IsExecuted (c : Command) (es : List Event) (t : TaskId) : Prop :=
  ∃ j, c.job = .ok j ∧ .began t j ∈ es

end Command

structure Commanded (es : List Event) : Prop where
  began : ∀ {t j}, .began t j ∈ es → ∃ c : Command, c.job = .ok j
  rejected : ∀ {t e}, .rejected t e ∈ es → ∃ c : Command, c.job = .error e

theorem Commanded.append {es es' : List Event} (h : Commanded es) (h' : Commanded es') :
    Commanded (es ++ es') where
  began hj := (List.mem_append.mp hj).elim h.began h'.began
  rejected hx := (List.mem_append.mp hx).elim h.rejected h'.rejected

/-- The version for which a save has made an identity, with the task that has asked for it. -/
def Event.created : Event → List (TaskId × User)
  | .served t q r => (q.created r).map (t, ·)
  | _ => []

variable {w : Wiring} {mint : Mint} {es es' : List Event} {t : TaskId} {j : Job} {u v : User}
  {q : StoreRequest} {d D : Directory} {c : Command} {id : Uuid}

theorem UpdateUserCommand.job_eq_ok {c : UpdateUserCommand} (h : c.job = .ok j) :
    j = .request (.save c.toUser) ∧ c.userId ≠ .nil := by
  rw [job] at h
  split at h
  · cases h
  · rename_i hnil
    cases h
    exact ⟨rfl, fun he => hnil (Uuid.isNil_iff.mpr he)⟩

theorem Command.job_eq_error {e : UserError} (h : c.job = .error e) :
    e = .badRequest "user id is required" := by
  cases c with
  | update c =>
      simp only [job, UpdateUserCommand.job] at h
      split at h
      · cases h
        rfl
      · cases h
  | _ => cases h

theorem Command.isWrite_of_job (h : c.job = .ok j) : j.IsWrite := by
  cases c with
  | update c =>
      rw [(UpdateUserCommand.job_eq_ok h).1]
      trivial
  | _ =>
      cases h
      trivial

theorem Command.Saves.target {id' : Uuid} (h : c.Saves id) (htarget : c.target? = some id') :
    id = id' ∧ id ≠ .nil := by
  cases c with
  | create c => cases htarget
  | update c =>
      cases htarget
      exact h
  | patch c =>
      cases htarget
      exact h
  | delete c => exact h.elim

theorem Command.saves_of_makes (h : c.job = .ok j) (hm : j.Makes (.versions D) (.save u))
    (hD : D.Sound mint) (hmint : mint.Fresh D.drawn) : c.Saves u.id := by
  cases c with
  | create c =>
      cases h
      cases hm
      rfl
  | update c =>
      obtain ⟨rfl, hne⟩ := UpdateUserCommand.job_eq_ok h
      cases hm
      exact ⟨rfl, hne⟩
  | patch c =>
      cases h
      cases hm with
      | @amend id patch u₀ hgives =>
          obtain ⟨u₁, hu, heq⟩ := hgives.version
          cases heq
          have hid : u₀.id = c.userId := hD.id_of_mem_history hu
          exact ⟨hid, hid ▸ hD.ne_nil_of_mem_history hmint hu⟩
  | delete c =>
      cases h
      cases hm

namespace System

variable {s s' s₀ : System}

/-- What a step after a course of steps does to the identities. -/
structure Attributes (es es' : List Event) (s s' : System) : Prop where
  added : ∀ {id}, s.store.identity? id = none → s'.store.identity? id ≠ none →
    ∃ t c v, .began t (CreateUserCommand.job c) ∈ es ∧ savesIn es' = [(t, v)] ∧ v.id = id
  kept : ∀ {id}, s.store.identity? id ≠ none → s'.store.identity? id ≠ none
  deleted : ∀ {id}, s.store.IsDeleted id → s'.store.IsDeleted id
  fresh : ∀ {t c v}, .began t (CreateUserCommand.job c) ∈ es → (t, v) ∈ savesIn es' →
    v.id ≠ .nil ∧ s.store.identity? v.id = none
  live : ∀ {t c v id}, Command.IsExecuted c es t → c.target? = some id → (t, v) ∈ savesIn es' →
    v.id = id ∧ s.store.identity? id ≠ none ∧ ¬ s.store.IsDeleted id

open scoped Classical in
/-- What is known of the identities and versions after commands have been executed on a directory,
and of the commands. -/
structure Accounts (w : Wiring) (mint : Mint) (d : Directory) (es : List Event) (s : System) :
    Prop where
  identities : s.store.identities.length = d.identities.length +
    (savesIn es).countP fun x => ∃ c : CreateUserCommand, .began x.1 c.job ∈ es
  versions : s.store.versionCount = d.versionCount + (savesIn es).length
  history : ∀ id, s.store.history id =
    d.history id ++ ((savesIn es).map (·.2)).filter (·.id = id)
  once : ∀ t, (savesOf es t).length ≤ 1
  saves : ∀ {t u r}, .served t (.save u) r ∈ es →
    ∃ c : Command, c.IsExecuted es t ∧ c.Saves u.id
  succeeded : ∀ {t c b}, Command.IsExecuted c es t → .returned t (.ok b) ∈ es →
    (∀ x, c ≠ .delete x) →
      ∃ v, b = .user v ∧ savesOf es t = [v] ∧ ∀ id, c.target? = some id → v.id = id
  failed : ∀ {t c e}, Command.IsExecuted c es t → .returned t (.error e) ∈ es →
    savesOf es t = []
  badRequest : ∀ c : UpdateUserCommand, c.userId = .nil →
    (Command.update c).job = .error (.badRequest "user id is required")
  rejected : ∀ {t x}, .rejected t x ∈ es → x = .badRequest "user id is required" ∧
    ∀ e ∈ es, ∀ q, ¬ e.IsCall t q
  step : ∀ {es' s'}, LooseStep w mint s es' s' → mint.Fresh s'.store.drawn →
    (∀ key, .meddled key ∉ es') → Commanded es' → s.Attributes es es' s'

theorem savesIn_eq_nil (h : ∀ t q r, .served t q r ∉ es) : savesIn es = [] := by
  refine List.eq_nil_iff_forall_not_mem.mpr ?_
  rintro ⟨t, v⟩ hv
  obtain ⟨u, he⟩ := mem_savesIn.mp hv
  exact h _ _ _ he

theorem mem_created :
    (t, v) ∈ es.flatMap Event.created ↔ ∃ u, .served t (.save u) (.ok (.user v)) ∈ es ∧
      u.id = .nil := by
  simp only [List.mem_flatMap]
  constructor
  · rintro ⟨e, he, hv⟩
    cases e with
    | served t' q r =>
        obtain ⟨v', hv', heq⟩ := List.mem_map.mp hv
        cases heq
        obtain ⟨⟨u, rfl, hnil⟩, rfl⟩ := StoreRequest.mem_created.mp hv'
        exact ⟨u, he, hnil⟩
    | _ => cases hv
  · rintro ⟨u, he, hnil⟩
    exact ⟨_, he, List.mem_map_of_mem (StoreRequest.mem_created.mpr ⟨⟨u, rfl, hnil⟩, rfl⟩)⟩

theorem created_eq_nil (h : ∀ t q r, .served t q r ∉ es) : es.flatMap Event.created = [] := by
  refine List.eq_nil_iff_forall_not_mem.mpr ?_
  rintro ⟨t, v⟩ hv
  obtain ⟨u, he, -⟩ := mem_created.mp hv
  exact h _ _ _ he

/-- What has been added to a store is what the saves that are seen in `es` have stored. -/
structure Grows (d : Directory) (es : List Event) (d' : Directory) : Prop where
  versions : d'.versionCount = d.versionCount + (savesIn es).length
  identities : d'.identities.length = d.identities.length + (es.flatMap Event.created).length
  history : ∀ id, d'.history id =
    d.history id ++ ((savesIn es).map (·.2)).filter (·.id = id)

theorem Grows.of_unserved (h : ∀ t q r, .served t q r ∉ es) : Grows d es d := by
  constructor <;> simp [savesIn_eq_nil h, created_eq_nil h]

theorem Grows.append {d₁ d₂ d₃ : Directory} (h : Grows d₁ es d₂) (h' : Grows d₂ es' d₃) :
    Grows d₁ (es ++ es') d₃ where
  versions := by
    rw [h'.versions, h.versions]
    simp [savesIn, Nat.add_assoc]
  identities := by
    rw [h'.identities, h.identities]
    simp [Nat.add_assoc]
  history id := by
    rw [h'.history, h.history]
    simp [savesIn]

theorem LooseStep.grows (hs : LooseStep w mint s es s') (hd : s.store.Sound mint)
    (hm : mint.Fresh s'.store.drawn) : Grows s.store es s'.store := by
  rcases hs.served_cases with ⟨hstore, hnot⟩ | ⟨t, st, q, -, -, rfl, hstore⟩
  · rw [hstore]
    exact .of_unserved hnot
  · have hd' := (hs.extends_store hd hm).1
    rw [hstore] at hm hd' ⊢
    have hchanged := hd.changedBy_serve hm
    refine ⟨?_, ?_, fun id => ?_⟩
    · simp [hchanged.versionCount hd hd', savesIn, Event.saved]
    · simp [hchanged.length_identities hd hd', Event.created]
    · simp [hchanged.history id, savesIn, Event.saved, Function.comp_def,
        ← StoreRequest.filter_saved]

theorem LooseRun.grows (h : LooseRun w mint s es s') (hd : s.store.Sound mint)
    (hm : mint.Fresh s'.store.drawn) : Grows s.store es s'.store := by
  induction h with
  | refl => exact .of_unserved (by simp)
  | step h hx ih =>
      have hm' := hm.mono hx.drawn_le
      exact (ih hm').append (hx.grows (h.extends_store hd hm').1 hm)

theorem LooseStep.changedBy {r : StoreReply} (hs : LooseStep w mint s es s')
    (hd : s.store.Sound mint) (hm : mint.Fresh s'.store.drawn) (h : .served t q r ∈ es) :
    s.store.ChangedBy s'.store q r := by
  obtain ⟨-, rfl, -, hstore⟩ := hs.of_served h
  rw [hstore] at hm ⊢
  exact hd.changedBy_serve hm

theorem LooseRun.id_of_served (h : LooseRun w mint s es s')
    (he : .served t (.save u) (.ok (.user v)) ∈ es) (hu : u.id ≠ .nil) : v.id = u.id := by
  induction h with
  | refl => cases he
  | step h hs ih =>
      rcases List.mem_append.mp he with he | he
      · exact ih he
      · obtain ⟨-, hr, -⟩ := hs.of_served he
        cases Directory.eq_of_serve_save hr.symm
        exact Directory.id_stage_of_ne_nil mint _ hu

namespace Ledger

variable (hl : Ledger w D es s)

include hl

theorem eq_of_isExecuted (h : c.IsExecuted es t) (hj : .began t j ∈ es) : c.job = .ok j := by
  obtain ⟨j', hjob, hj'⟩ := h
  rw [hjob, hl.unique hj' hj]

theorem id_eq_nil_iff {r : StoreReply} (hc : Commanded es) (hD : D.Sound mint)
    (hm : mint.Fresh D.drawn) (he : .served t (.save u) r ∈ es) :
    u.id = .nil ↔ ∃ c : CreateUserCommand, .began t c.job ∈ es := by
  obtain ⟨j, hj, hmakes⟩ := hl.called he (.inl ⟨r, rfl⟩)
  have hsaves {c : Command} (hjob : c.job = .ok j) : c.Saves u.id :=
    Command.saves_of_makes hjob (hmakes trivial) hD hm
  constructor
  · intro hnil
    obtain ⟨c, hjob⟩ := hc.began hj
    have hc := hsaves hjob
    cases c with
    | create c =>
        cases hjob
        exact ⟨c, hj⟩
    | update c => exact absurd hnil hc.2
    | patch c => exact absurd hnil hc.2
    | delete c => exact hc.elim
  · rintro ⟨c, hcreate⟩
    obtain rfl := hl.unique hcreate hj
    exact hsaves (c := .create c) rfl

open scoped Classical in
theorem length_created (hc : Commanded es) (hD : D.Sound mint) (hm : mint.Fresh D.drawn) :
    (es.flatMap Event.created).length =
      (savesIn es).countP fun x => ∃ c : CreateUserCommand, .began x.1 c.job ∈ es := by
  rw [List.length_flatMap, savesIn, List.countP_flatMap]
  refine congrArg List.sum (List.map_congr_left fun e he => ?_)
  cases e with
  | served t q r =>
      by_cases hsave : ∃ u v, q = .save u ∧ r = .ok (.user v)
      · obtain ⟨u, v, rfl, rfl⟩ := hsave
        simp only [Event.created, Event.saved, StoreRequest.created, StoreRequest.saved,
          Function.comp_def, List.map_cons, List.map_nil, List.countP_singleton,
          decide_eq_true_eq, ← hl.id_eq_nil_iff hc hD hm he]
        split <;> rfl
      · have hsaved : q.saved r = [] := by
          refine List.eq_nil_iff_forall_not_mem.mpr fun v hv => ?_
          obtain ⟨⟨u, hq⟩, hr⟩ := StoreRequest.mem_saved.mp hv
          exact hsave ⟨u, v, hq, hr⟩
        have hcreated : q.created r = [] := by
          refine List.eq_nil_iff_forall_not_mem.mpr fun v hv => ?_
          obtain ⟨⟨u, hq, -⟩, hr⟩ := StoreRequest.mem_created.mp hv
          exact hsave ⟨u, v, hq, hr⟩
        simp [Event.created, Event.saved, hsaved, hcreated]
  | _ => rfl

theorem saves_of_isExecuted {r : StoreReply} (h : c.IsExecuted es t)
    (he : .served t (.save u) r ∈ es) (hD : D.Sound mint) (hm : mint.Fresh D.drawn) :
    c.Saves u.id := by
  obtain ⟨j, hj, hmakes⟩ := hl.called he (.inl ⟨r, rfl⟩)
  exact Command.saves_of_makes (hl.eq_of_isExecuted h hj) (hmakes trivial) hD hm

theorem succeeded {b : StoreAnswer} (h : c.IsExecuted es t) (hdelete : ∀ x, c ≠ .delete x)
    (hret : .returned t (.ok b) ∈ es) : ∃ v, b = .user v ∧ savesOf es t = [v] := by
  obtain ⟨j, hjob, hj⟩ := h
  rcases hl.answered hj hret with ⟨q, hmakes, hsaved, huser⟩ | ⟨-, e, he⟩
  · have hq : ∃ u, q = .save u := by
      cases c with
      | create c =>
          cases hjob
          cases hmakes
          exact ⟨_, rfl⟩
      | update c =>
          obtain ⟨rfl, -⟩ := UpdateUserCommand.job_eq_ok hjob
          cases hmakes
          exact ⟨_, rfl⟩
      | patch c =>
          cases hjob
          cases hmakes
          exact ⟨_, rfl⟩
      | delete c => exact absurd rfl (hdelete c)
    obtain ⟨u, rfl⟩ := hq
    obtain ⟨v, rfl⟩ := huser u b rfl rfl
    exact ⟨v, rfl, hsaved⟩
  · cases he

theorem failed {e : UserError} (h : c.IsExecuted es t) (hret : .returned t (.error e) ∈ es) :
    savesOf es t = [] := by
  obtain ⟨j, -, hj⟩ := h
  rcases hl.answered hj hret with ⟨q, -, hsaved, -⟩ | ⟨hnil, -⟩
  · rw [hsaved]
    cases q <;> rfl
  · exact hnil

theorem not_isCall_of_rejected {x : UserError} (hx : .rejected t x ∈ es) {e : Event} (he : e ∈ es) :
    ¬ e.IsCall t q := by
  intro hcall
  obtain ⟨j, hj, -⟩ := hl.called he hcall
  exact hl.rejected hx hj

omit hl in
theorem attributes (hs : LooseStep w mint s es' s') (hl : Ledger w s'.store (es ++ es') s')
    (hc : Commanded (es ++ es')) (hd : s.store.Sound mint) (hm : mint.Fresh s'.store.drawn) :
    s.Attributes es es' s' := by
  obtain ⟨hd', hextends⟩ := hs.extends_store hd hm
  have hsaved {t v} (hv : (t, v) ∈ savesIn es') : ∃ u, .served t (.save u) (.ok (.user v)) ∈ es' ∧
      s.store.ChangedBy s'.store (.save u) (.ok (.user v)) := by
    obtain ⟨u, he⟩ := mem_savesIn.mp hv
    exact ⟨u, he, hs.changedBy hd hm he⟩
  have hnone (id : Uuid) : s'.store.identity? id = none ↔
      s.store.identity? id = none ∧ ∀ x ∈ es'.flatMap Event.created, x.2.id ≠ id := by
    rcases hs.served_cases with ⟨hstore, hnot⟩ | ⟨t, st, q, -, -, rfl, -⟩
    · simp [hstore, created_eq_nil hnot]
    · rw [(hs.changedBy hd hm (List.mem_singleton_self _)).identity?_eq_none id]
      simp [Event.created]
  refine ⟨?_, ?_, fun h => hextends.isDeleted _ h, ?_, ?_⟩
  · intro id hold hnew
    have hmade : ∃ x ∈ es'.flatMap Event.created, x.2.id = id := by
      by_contra hnot
      exact hnew ((hnone id).mpr ⟨hold, fun x hx hid => hnot ⟨x, hx, hid⟩⟩)
    obtain ⟨⟨t, v⟩, hx, hid⟩ := hmade
    obtain ⟨u, he, hu⟩ := mem_created.mp hx
    obtain ⟨c, hj⟩ := (hl.id_eq_nil_iff hc hd' hm (List.mem_append_right _ he)).mp hu
    obtain ⟨-, -, rfl, -⟩ := hs.of_served he
    exact ⟨t, c, v, by simpa using hj, rfl, hid⟩
  · intro id hold hnew
    exact hold ((hnone id).mp hnew).1
  · intro t c v hj hv
    obtain ⟨u, he, hchanged⟩ := hsaved hv
    have hu : u.id = .nil := (hl.id_eq_nil_iff hc hd' hm (List.mem_append_right _ he)).mpr
      ⟨c, List.mem_append_left _ hj⟩
    cases hchanged with
    | saved staged id_eq isNew live changes =>
        refine ⟨hd'.ne_nil_of_identity? hm (changes v.id ▸ if_pos rfl), isNew.mpr hu⟩
    | read hq same => exact absurd trivial hq
  · intro t c v id hexecuted htarget hv
    obtain ⟨u, he, hchanged⟩ := hsaved hv
    obtain ⟨j, hjob, hj⟩ := hexecuted
    have hsaves := hl.saves_of_isExecuted ⟨j, hjob, List.mem_append_left _ hj⟩
      (List.mem_append_right _ he) hd' hm
    have hid := hsaves.target htarget
    cases hchanged with
    | saved staged id_eq isNew live changes =>
        have hv : v.id = id := (id_eq hid.2).trans hid.1
        exact ⟨hv, hv ▸ fun h => hid.2 (isNew.mp h), hv ▸ live⟩
    | read hq same => exact absurd trivial hq

end Ledger

/-- However commands are executed beside each other, whatever fails and even if fences are lost,
only creations make identities, and each save that succeeds adds one version to the user that its
command names. -/
theorem only_creations_identify {m : Nat} (hd : d.Reachable mint)
    (h : LooseRun w mint { store := d, cache := { maxLifetime := m } } es s)
    (hm : mint.Fresh s.store.drawn) (hquiet : ∀ key, .meddled key ∉ es) (hc : Commanded es) :
    Accounts w mint d es s := by
  have hsound := hd.sound (hm.mono h.drawn_le)
  have hsourced := h.sourced hm hquiet (sourced_start w hsound m)
  have hledger {es' : List Event} {s' : System}
      (h' : LooseRun w mint { store := d, cache := { maxLifetime := m } } es' s')
      (hm' : mint.Fresh s'.store.drawn) (hquiet' : ∀ key, .meddled key ∉ es')
      (hc' : Commanded es') : Ledger w s'.store es' s' :=
    h'.ledger rfl hsound hm' hquiet'
      (fun hj => let ⟨_, hjob⟩ := hc'.began hj; Command.isWrite_of_job hjob) (.refl _)
  have hl := hledger h hm hquiet hc
  have hgrows := h.grows hsound hm
  refine ⟨?_, hgrows.versions, hgrows.history, hl.once, ?_, ?_, hl.failed, ?_, ?_, ?_⟩
  · rw [hgrows.identities, hl.length_created hc hsourced.sound hm]
  · intro t u r he
    obtain ⟨j, hj, -⟩ := hl.called he (.inl ⟨r, rfl⟩)
    obtain ⟨c, hjob⟩ := hc.began hj
    exact ⟨c, ⟨j, hjob, hj⟩, hl.saves_of_isExecuted ⟨j, hjob, hj⟩ he hsourced.sound hm⟩
  · intro t c b hexecuted hret hdelete
    obtain ⟨v, rfl, hsaved⟩ := hl.succeeded hexecuted hdelete hret
    refine ⟨v, rfl, hsaved, fun id htarget => ?_⟩
    obtain ⟨u, he⟩ := mem_savesOf.mp (hsaved ▸ List.mem_singleton_self v)
    have hid := (hl.saves_of_isExecuted hexecuted he hsourced.sound hm).target htarget
    exact (h.id_of_served he hid.2).trans hid.1
  · intro c hnil
    simp [Command.job, UpdateUserCommand.job, Uuid.isNil_iff.mpr hnil]
  · intro t x hx
    obtain ⟨c, hjob⟩ := hc.rejected hx
    exact ⟨Command.job_eq_error hjob, fun e he q => hl.not_isCall_of_rejected hx he⟩
  · intro es' s' hs hm' hquiet' hc'
    have hquiet₂ : ∀ key, .meddled key ∉ es ++ es' := fun key hk =>
      (List.mem_append.mp hk).elim (hquiet key) (hquiet' key)
    exact (hledger (h.step hs) hm' hquiet₂ (hc.append hc')).attributes hs (hc.append hc')
      hsourced.sound hm'

/-- A user is created, an empty patch stores a second version of it while fences are lost, and an
update that names nobody is refused. -/
theorem only_creations_identify_of_empty_patch :
    let mint : Mint := fun n => .ofNat (n + 1)
    let c : CreateUserCommand :=
      { firstName := "Ada", lastName := "Lovelace", email := "ada@example.com",
        passwordHash := "" }
    let p : PatchUserCommand := { userId := mint 1, patch := {} }
    let e : UserError := .badRequest "user id is required"
    let u : User := { c.toUser with id := mint 1, versionId := mint 2, isLatestVersion := true }
    ∃ es s, LooseRun (some {}) mint { store := {}, cache := { maxLifetime := 1000 } } es s ∧
      [.began 0 c.job, .began 1 p.job, .returned 1 (.ok (.user u)), .rejected 3 e].Sublist es ∧
      Accounts (some {}) mint {} es s := by
  intro mint c p e u
  let starts (e : Event) : Bool :=
    match e with
    | .began _ j => j = c.job ∨ j = p.job
    | .rejected _ _ => false
    | _ => true
  obtain ⟨⟨es, s⟩, hplay, hend⟩ := (Option.any_eq_true (fun x : List Event × System =>
      decide (x.2.store.drawn = 3 ∧ x.2.nextTask = 3 ∧ x.1.all starts ∧
        List.isSublist [.began 0 c.job, .began 1 p.job, .returned 1 (.ok (.user u))] x.1))
    (muddleUnfenced? (some {}) mint { store := {}, cache := { maxLifetime := 1000 } }
      ([RoughMove.move (.start c.job)] ++ List.replicate 8 (.move (.advance 0)) ++
        [RoughMove.move (.start p.job)] ++ List.replicate 14 (.move (.advance 1))))).mp
    (by decide +kernel)
  obtain ⟨hdrawn, hnext, hstarts, hl⟩ := of_decide_eq_true hend
  obtain ⟨hrun, hquiet⟩ := LooseRun.of_muddleUnfenced? hplay
  have hreject : LooseStep (some {}) mint s [.rejected s.nextTask e]
      { s with fences := {}, nextTask := s.nextTask + 1 } :=
    .step {} (by simp [Fences.fence]) (.reject e)
  have hnext : s.nextTask = 3 := hnext
  rw [hnext] at hreject
  have hm : mint.Fresh s.store.drawn := by
    rw [hdrawn]
    decide +kernel
  have hcommands : Commanded es :=
    { began := fun {t j} hj => by
        have hjob := List.all_eq_true.mp hstarts _ hj
        rcases of_decide_eq_true hjob with rfl | rfl
        · exact ⟨.create c, rfl⟩
        · exact ⟨.patch p, rfl⟩
      rejected := fun hx => absurd (List.all_eq_true.mp hstarts _ hx) (by simp [starts]) }
  have hrefused : Commanded [.rejected 3 e] :=
    { began := fun hj => by simp at hj
      rejected := fun {t x} hx => by
        cases List.mem_singleton.mp hx
        exact ⟨.update ⟨.nil, "", "", "", "", false, ""⟩, rfl⟩ }
  refine ⟨_, _, hrun.step hreject, ?_, ?_⟩
  · exact (List.isSublist_iff_sublist.mp hl).append (List.Sublist.refl [Event.rejected 3 e])
  · refine only_creations_identify .empty (hrun.step hreject) hm ?_ (hcommands.append hrefused)
    intro key hk
    rcases List.mem_append.mp hk with hk | hk
    · exact hquiet key hk
    · simp at hk

end System

end UserDirectory
