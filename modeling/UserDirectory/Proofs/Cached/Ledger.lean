import UserDirectory.Proofs.Cached.Amendment
import UserDirectory.Proofs.Cached.Content
import UserDirectory.Proofs.Directory.Counts

namespace UserDirectory

namespace Event

/-- The task that an event is about, if any. -/
def task? : Event → Option TaskId
  | .began t _ | .rejected t _ | .exchanged t _ _ | .served t _ _ | .refused t _ _ | .turned t _ _
  | .returned t _ | .cancelled t => some t
  | .evicted _ | .meddled _ | .elapsed _ => none

def IsCall (t : TaskId) (q : StoreRequest) (e : Event) : Prop :=
  (∃ r, e = .served t q r) ∨ ∃ x, e = .refused t q x

/-- The version that a save has stored, with the task that has asked for it. -/
def saved : Event → List (TaskId × User)
  | .served t q r => (q.saved r).map (t, ·)
  | _ => []

end Event

def savesIn (es : List Event) : List (TaskId × User) := es.flatMap Event.saved

/-- The versions that the saves of a task have stored. -/
def savesOf (es : List Event) (t : TaskId) : List User :=
  ((savesIn es).filter (·.1 = t)).map (·.2)

/-- A request of which all saves of a task so far are an account. -/
def tallied (es : List Event) (t : TaskId) (q : StoreRequest) : Duty where
  request := q
  unserved := savesOf es t = []
  reply r := savesOf es t = q.saved r ∧ ∀ u a, q = .save u → r = .ok a → ∃ v, a = .user v
  dropped _ _ := True

variable {w : Wiring} {mint : Mint} {es es' : List Event} {t : TaskId} {j : Job}
  {q : StoreRequest} {d D : Directory} {o : Sources} {st : Stage}

theorem mem_savesIn {v : User} :
    (t, v) ∈ savesIn es ↔ ∃ u, .served t (.save u) (.ok (.user v)) ∈ es := by
  simp only [savesIn, List.mem_flatMap]
  constructor
  · rintro ⟨e, he, hv⟩
    cases e with
    | served t' q r =>
        obtain ⟨v', hv', heq⟩ := List.mem_map.mp hv
        cases heq
        obtain ⟨⟨u, rfl⟩, rfl⟩ := StoreRequest.mem_saved.mp hv'
        exact ⟨u, he⟩
    | _ => cases hv
  · rintro ⟨u, he⟩
    exact ⟨_, he, List.mem_singleton_self _⟩

theorem mem_savesOf {v : User} :
    v ∈ savesOf es t ↔ ∃ u, .served t (.save u) (.ok (.user v)) ∈ es := by
  rw [← mem_savesIn]
  simp [savesOf]

theorem savesOf_append (es es' : List Event) (t : TaskId) :
    savesOf (es ++ es') t = savesOf es t ++ savesOf es' t := by
  simp [savesOf, savesIn]

theorem savesOf_eq_nil (h : ∀ u r, .served t (.save u) r ∉ es) : savesOf es t = [] :=
  List.eq_nil_iff_forall_not_mem.mpr fun _ hv =>
    let ⟨u, he⟩ := mem_savesOf.mp hv
    h u _ he

theorem savesOf_append_of_unserved (h : ∀ u r, .served t (.save u) r ∉ es') :
    savesOf (es ++ es') t = savesOf es t := by
  rw [savesOf_append, savesOf_eq_nil h, List.append_nil]

theorem savesOf_served (t : TaskId) (q : StoreRequest) (r : StoreReply) :
    savesOf [.served t q r] t = q.saved r := by
  simp [savesOf, savesIn, Event.saved, List.filter_map, Function.comp_def]

theorem Process.Performs.makes {p : Process} {y : StoreRequest → Duty}
    (h : p.Performs w o y j) (hy : ∀ q, (y q).request = q) (hreq : p.stage.request w = .store q)
    (hq : q.IsWrite) : j.Makes o q := by
  cases h with
  | finding hfinds hu => exact absurd hq (hfinds.1.not_isWrite hreq)
  | @writing _ q' _ hmakes hwrites =>
      have heq : q' = q := by
        obtain ⟨st, sd⟩ := p
        have hst := hwrites.1
        cases st with
        | save u replaced => exact (hy q').symm.trans (hst.trans (Request.store.inj hreq))
        | delete id email => exact (hy q').symm.trans (hst.trans (Request.store.inj hreq))
        | readReplaced u => cases hreq
        | readDoomed id => cases hreq
        | awaitDrop id emails a => cases hreq
        | dropEntry id emails a => cases hreq
        | dropIndex email afterwards => cases hreq
        | _ => exact hst.elim
      exact heq ▸ hmakes

theorem Process.Performs.savesOf_eq_nil
    (h : Process.Performs w o (tallied es t) j ⟨st, .ready⟩) (hreq : st.request w = .store q) :
    savesOf es t = [] := by
  cases h with
  | finding hfinds hu => exact hu q
  | writing hmakes hwrites =>
      refine hwrites.2 ?_
      have hst := hwrites.1
      cases st <;> trivial

namespace System

variable {s s' : System} {p : Process}

theorem LooseStep.served_cases (hs : LooseStep w mint s es s') :
    (s'.store = s.store ∧ ∀ t q r, .served t q r ∉ es) ∨
      ∃ t st q, s.tasks t = some ⟨st, .ready⟩ ∧ st.request w = .store q ∧
        es = [.served t q (s.store.serve mint q).1] ∧ s'.store = (s.store.serve mint q).2 := by
  cases hs with
  | grant ht ha => exact .inl ⟨rfl, by simp⟩
  | step f hf hs =>
      cases hs with
      | serve ht hq => exact .inr ⟨_, _, _, ht, hq, rfl, rfl⟩
      | turn ht =>
          exact .inl ⟨store_turn _ _ _ _,
            fun _ _ _ => Next.not_mem_turned (by simp) (by simp)⟩
      | cancel ht => exact .inl ⟨store_cancel _ _ _, by simp⟩
      | _ => exact .inl ⟨rfl, by simp⟩

theorem LooseStep.of_served {r : StoreReply} (hs : LooseStep w mint s es s')
    (h : .served t q r ∈ es) :
    (∃ st, s.tasks t = some ⟨st, .ready⟩ ∧ st.request w = .store q) ∧
      r = (s.store.serve mint q).1 ∧ es = [.served t q r] ∧
      s'.store = (s.store.serve mint q).2 := by
  rcases hs.served_cases with ⟨-, hnot⟩ | ⟨t', st, q', ht, hq, rfl, hstore⟩
  · exact absurd h (hnot _ _ _)
  · cases List.mem_singleton.mp h
    exact ⟨⟨st, ht, hq⟩, rfl, rfl, hstore⟩

theorem LooseStep.of_refused {e : UserError} (hs : LooseStep w mint s es s')
    (h : .refused t q e ∈ es) :
    (∃ st, s.tasks t = some ⟨st, .ready⟩ ∧ st.request w = .store q) ∧ es = [.refused t q e] := by
  cases hs with
  | grant ht ha => cases h
  | step f hf hs =>
      refine ⟨?_, hs.of_refused h⟩
      cases hs with
      | refuse ht hq he =>
          cases List.mem_singleton.mp h
          exact ⟨_, ht, hq⟩
      | turn ht => exact absurd h (Next.not_mem_turned (by simp) (by simp))
      | _ => simp at h

theorem LooseStep.of_call {e : Event} (hs : LooseStep w mint s es s') (he : e ∈ es)
    (h : e.IsCall t q) : ∃ st, s.tasks t = some ⟨st, .ready⟩ ∧ st.request w = .store q := by
  rcases h with ⟨r, rfl⟩ | ⟨x, rfl⟩
  · exact (hs.of_served he).1
  · exact (hs.of_refused he).1

theorem LooseStep.of_rejected {e : UserError} (hs : LooseStep w mint s es s')
    (h : .rejected t e ∈ es) : t = s.nextTask ∧ es = [.rejected t e] := by
  cases hs with
  | grant ht ha => cases h
  | step f hf hs =>
      cases hs with
      | reject x =>
          cases List.mem_singleton.mp h
          exact ⟨rfl, rfl⟩
      | turn ht => exact absurd h (Next.not_mem_turned (by simp) (by simp))
      | _ => simp at h

theorem LooseStep.task_lt (hs : LooseStep w mint s es s') (h : Unfenced w s) {e : Event}
    (he : e ∈ es) (ht : e.task? = some t) : t < s'.nextTask := by
  have hlt : ∀ {p}, s.tasks t = some p → t < s.nextTask := fun hp => h.lt_nextTask hp
  have hle := hs.nextTask_le
  cases hs with
  | grant hu ha => cases he
  | step f hf hs =>
      cases hs with
      | begin hj =>
          cases List.mem_singleton.mp he
          cases ht
          exact Nat.lt_succ_self _
      | reject x =>
          cases List.mem_singleton.mp he
          cases ht
          exact Nat.lt_succ_self _
      | turn hu =>
          refine Nat.lt_of_lt_of_le ?_ hle
          rcases Next.of_mem_turned he with rfl | ⟨b, -, rfl⟩
          · cases ht
            exact hlt hu
          · cases ht
            exact hlt hu
      | ask hu hq => cases he
      | evict key =>
          cases List.mem_singleton.mp he
          cases ht
      | meddle key bytes lifetime =>
          cases List.mem_singleton.mp he
          cases ht
      | elapse ms =>
          cases List.mem_singleton.mp he
          cases ht
      | exchange hu hq | fail hu hq | serve hu hq | refuse hu hq hx | cancel hu =>
          cases List.mem_singleton.mp he
          cases ht
          exact Nat.lt_of_lt_of_le (hlt hu) hle

theorem LooseStep.tasks_eq_none (hs : LooseStep w mint s es s') (h : Unfenced w s)
    (ht : t < s.nextTask) (hnone : s.tasks t = none) : s'.tasks t = none := by
  rcases hp : s'.tasks t with _ | p
  · rfl
  · obtain ⟨f, -, horigin⟩ := hs.origin h hp
    exact absurd (horigin.eq_nextTask hnone) (Nat.ne_of_lt ht)

/-- A step carries a task that changes a user on, and the account of its saves with it. -/
theorem LooseStep.carries (hs : LooseStep w mint s es' s') (h : Sourced w mint s)
    (hle : s.store.Extends D) (f : Fences) :
    Carries mint { s with fences := f } es' t (.versions D) j (tallied es t)
      (tallied (es ++ es') t) where
  request _ := rfl
  supplies _ := h.supplies hle
  unserved hreads q hq :=
    (savesOf_append_of_unserved fun u r he => hreads _ r he trivial).trans hq
  furthers q _ :=
    { request := rfl
      unserved := fun hnot hq => (savesOf_append_of_unserved fun u r => hnot _ r).trans hq
      reply := fun hnot r hr => ⟨(savesOf_append_of_unserved fun u r => hnot _ r).trans hr.1, hr.2⟩
      dropped := fun _ _ _ => trivial
      served := by
        rintro q' hmem rfl (hq : savesOf es t = [])
        obtain ⟨-, -, rfl, -⟩ := hs.of_served hmem
        refine ⟨?_, ?_⟩
        · rw [savesOf_append, hq, savesOf_served]
          rfl
        · rintro u a rfl hr
          exact ⟨_, Directory.eq_of_serve_save hr⟩
      refused := by
        rintro q' e hmem (hq : savesOf es t = [])
        obtain ⟨-, rfl⟩ := hs.of_refused hmem
        refine ⟨?_, by simp⟩
        rw [savesOf_append_of_unserved (by simp), hq]
        cases q <;> rfl
      dropping := fun _ _ => trivial }

/-- The account of a course of steps in which only tasks that change users are called. -/
structure Ledger (w : Wiring) (D : Directory) (es : List Event) (s : System) : Prop where
  named : ∀ {e t}, e ∈ es → e.task? = some t → t < s.nextTask
  unique : ∀ {t j j'}, .began t j ∈ es → .began t j' ∈ es → j = j'
  rejected : ∀ {t e j}, .rejected t e ∈ es → .began t j ∉ es
  gone : ∀ {t a}, .returned t a ∈ es → s.tasks t = none
  tasks : ∀ {t p}, s.tasks t = some p → (∃ j, .began t j ∈ es) ∨ p.stage.IsWriteBack
  performs : ∀ {t j}, .began t j ∈ es → ∀ p, s.tasks t = some p →
    p.Performs w (.versions D) (tallied es t) j
  called : ∀ {e t q}, e ∈ es → e.IsCall t q →
    ∃ j, .began t j ∈ es ∧ (q.IsWrite → j.Makes (.versions D) q)
  once : ∀ t, (savesOf es t).length ≤ 1
  answered : ∀ {t j a}, .began t j ∈ es → .returned t a ∈ es →
    (∃ q, j.Makes (.versions D) q ∧ (tallied es t q).reply a) ∨
      savesOf es t = [] ∧ ∃ e, a = .error e

theorem ledger_start (w : Wiring) (D d : Directory) (c : MemoryCache) :
    Ledger w D [] { store := d, cache := c } where
  named := by simp
  unique := by simp
  rejected := by simp
  gone := by simp
  tasks h := by cases h
  performs := by simp
  called := by simp
  once t := by simp [savesOf, savesIn]
  answered := by simp

namespace Ledger

variable (hl : Ledger w D es s) (hs : LooseStep w mint s es' s') (h : Sourced w mint s)
  (hle : s.store.Extends D)

include hl hs

theorem not_began (hj : .began t j ∈ es') : ∀ {e}, e ∈ es → e.task? ≠ some t := by
  intro e he hte
  obtain ⟨f, st, -, rfl, -⟩ := hs.of_began hj
  exact Nat.lt_irrefl _ (hl.named he hte)

theorem unique_step {j' : Job} (hj : .began t j ∈ es ++ es') (hj' : .began t j' ∈ es ++ es') :
    j = j' := by
  rcases List.mem_append.mp hj with hj | hj <;> rcases List.mem_append.mp hj' with hj' | hj'
  · exact hl.unique hj hj'
  · exact absurd rfl (hl.not_began hs hj' hj)
  · exact absurd rfl (hl.not_began hs hj hj')
  · obtain ⟨f, st, -, -, rfl, -⟩ := hs.of_began hj
    cases List.mem_singleton.mp hj'
    rfl

theorem rejected_step {e : UserError} (he : .rejected t e ∈ es ++ es') :
    .began t j ∉ es ++ es' := by
  intro hj
  rcases List.mem_append.mp hj with hj | hj <;> rcases List.mem_append.mp he with he | he
  · exact hl.rejected he hj
  · obtain ⟨rfl, -⟩ := hs.of_rejected he
    exact Nat.lt_irrefl _ (hl.named hj rfl)
  · exact hl.not_began hs hj he rfl
  · obtain ⟨-, rfl⟩ := hs.of_rejected he
    cases List.mem_singleton.mp hj

theorem call_step {e : Event} (he : e ∈ es') (hcall : e.IsCall t q) :
    ∃ st j, s.tasks t = some ⟨st, .ready⟩ ∧ st.request w = .store q ∧ .began t j ∈ es := by
  obtain ⟨st, ht, hq⟩ := hs.of_call he hcall
  rcases hl.tasks ht with ⟨j, hj⟩ | hback
  · exact ⟨st, j, ht, hq, hj⟩
  · exact absurd hq hback.request_ne

theorem called_step {e : Event} (he : e ∈ es ++ es') (hcall : e.IsCall t q) :
    ∃ j, .began t j ∈ es ++ es' ∧ (q.IsWrite → j.Makes (.versions D) q) := by
  rcases List.mem_append.mp he with he | he
  · obtain ⟨j, hj, hmakes⟩ := hl.called he hcall
    exact ⟨j, List.mem_append_left _ hj, hmakes⟩
  · obtain ⟨st, j, ht, hq, hj⟩ := hl.call_step hs he hcall
    exact ⟨j, List.mem_append_left _ hj, (hl.performs hj _ ht).makes (fun _ => rfl) hq⟩

theorem once_step (t : TaskId) : (savesOf (es ++ es') t).length ≤ 1 := by
  by_cases hserved : ∃ u r, .served t (.save u) r ∈ es'
  · obtain ⟨u, r, he⟩ := hserved
    obtain ⟨st, j, ht, hq, hj⟩ := hl.call_step hs he (.inl ⟨r, rfl⟩)
    obtain ⟨-, -, rfl, -⟩ := hs.of_served he
    rw [savesOf_append, (hl.performs hj _ ht).savesOf_eq_nil hq, savesOf_served,
      StoreRequest.saved.eq_def]
    split <;> simp
  · rw [savesOf_append_of_unserved fun u r he => hserved ⟨u, r, he⟩]
    exact hl.once t

include h

theorem gone_step {a : StoreReply} (ha : .returned t a ∈ es ++ es') : s'.tasks t = none := by
  rcases List.mem_append.mp ha with ha | ha
  · exact hs.tasks_eq_none h.unfenced (hl.named ha rfl) (hl.gone ha)
  · cases hs with
    | grant ht hq => cases ha
    | step f hf hs => exact hs.tasks_of_returned (h.unfenced.tidy hf) ha

theorem tasks_step {p : Process} (hp : s'.tasks t = some p) :
    (∃ j, .began t j ∈ es ++ es') ∨ p.stage.IsWriteBack := by
  have hold : ∀ {p₀ : Process}, s.tasks t = some p₀ →
      (p₀.stage.IsWriteBack → p.stage.IsWriteBack) →
      (∃ j, .began t j ∈ es ++ es') ∨ p.stage.IsWriteBack := fun hp₀ hback =>
    (hl.tasks hp₀).imp (fun ⟨j, hj⟩ => ⟨j, List.mem_append_left _ hj⟩) hback
  obtain ⟨f, ho, horigin⟩ := hs.origin h.unfenced hp
  rcases horigin.stage_cases ho with
    ⟨sd, ht⟩ | ⟨j, -, rfl, -⟩ | ⟨u, n, -, hst⟩ | ⟨st, r, st', ht, -, hsucc, rfl⟩
  · exact hold ht id
  · exact .inl ⟨j, List.mem_append_right _ (List.mem_singleton_self _)⟩
  · exact .inr (hst ▸ trivial)
  · exact hold ht hsucc.isWriteBack

include hle

theorem performs_step (hwrite : ∀ {t j}, .began t j ∈ es' → j.IsWrite)
    (hj : .began t j ∈ es ++ es') (p : Process) (hp : s'.tasks t = some p) :
    p.Performs w (.versions D) (tallied (es ++ es') t) j := by
  rcases List.mem_append.mp hj with hj | hj
  · obtain ⟨f, ho, horigin⟩ := hs.origin h.unfenced hp
    exact horigin.performs ho (hl.named hj rfl) (hs.carries h hle f) (hl.performs hj)
  · obtain ⟨f, st, hstarts, -, rfl, -, ht⟩ := hs.of_began hj
    rw [ht] at hp
    cases hp
    refine hstarts.performs (hwrite hj) (fun _ => rfl) fun q => ?_
    refine savesOf_eq_nil fun u r he => ?_
    rcases List.mem_append.mp he with he | he
    · exact hl.not_began hs hj he rfl
    · cases List.mem_singleton.mp he

omit hle in
/-- A task that returns has saved what it returns, or it returns an error. -/
theorem answers {a : StoreReply} (hj : .began t j ∈ es) (ha : .returned t a ∈ es') :
    (∃ q, j.Makes (.versions D) q ∧ (tallied es t q).reply a) ∨
      savesOf es t = [] ∧ ∃ e, a = .error e := by
  cases hs with
  | grant ht hq => cases ha
  | step f hf hs =>
      have ho := h.unfenced.tidy hf
      obtain ⟨st, r, ht, hnext, -, -⟩ := hs.of_returned ha
      have hresults := ho.results ht hnext
      cases hl.performs hj _ ht with
      | @finding id patch _ hfinds hu =>
          obtain ⟨hreply, hne⟩ := hresults.of_finds hfinds.1 (hfinds.2 _ rfl)
          refine .inr ⟨hu (.get id), ?_⟩
          cases a with
          | error e => exact ⟨e, rfl⟩
          | ok b =>
              obtain ⟨u, -, rfl⟩ := hreply id b rfl rfl
              exact absurd rfl (hne u)
      | writing hmakes hwrites => exact .inl ⟨_, hmakes, hresults.reply_of_writes hwrites⟩

omit hle in
theorem answered_step {a : StoreReply} (hj : .began t j ∈ es ++ es')
    (ha : .returned t a ∈ es ++ es') :
    (∃ q, j.Makes (.versions D) q ∧ (tallied (es ++ es') t q).reply a) ∨
      savesOf (es ++ es') t = [] ∧ ∃ e, a = .error e := by
  have hreturned : ∀ {u r}, .served t (.save u) r ∉ es' := by
    intro u r he
    obtain ⟨⟨st, ht, -⟩, -, rfl, -⟩ := hs.of_served he
    rcases List.mem_append.mp ha with ha | ha
    · rw [hl.gone ha] at ht
      cases ht
    · cases List.mem_singleton.mp ha
  have hsame : savesOf (es ++ es') t = savesOf es t :=
    savesOf_append_of_unserved fun _ _ => hreturned
  simp only [tallied, hsame]
  rcases List.mem_append.mp hj with hj | hj
  · rcases List.mem_append.mp ha with ha | ha
    · exact hl.answered hj ha
    · exact hl.answers hs h hj ha
  · rcases List.mem_append.mp ha with ha | ha
    · exact absurd rfl (hl.not_began hs hj ha)
    · obtain ⟨f, st, -, -, rfl, -⟩ := hs.of_began hj
      cases List.mem_singleton.mp ha

theorem step (hwrite : ∀ {t j}, .began t j ∈ es' → j.IsWrite) : Ledger w D (es ++ es') s' where
  named he ht := by
    rcases List.mem_append.mp he with he | he
    · exact Nat.lt_of_lt_of_le (hl.named he ht) hs.nextTask_le
    · exact hs.task_lt h.unfenced he ht
  unique := hl.unique_step hs
  rejected := hl.rejected_step hs
  gone := hl.gone_step hs h
  tasks := hl.tasks_step hs h
  performs hj := hl.performs_step hs h hle hwrite hj
  called := hl.called_step hs
  once := hl.once_step hs
  answered := hl.answered_step hs h

end Ledger

theorem LooseRun.ledger {d : Directory} {m : Nat} {s₀ : System}
    (hr : LooseRun w mint s₀ es s) (hs₀ : s₀ = { store := d, cache := { maxLifetime := m } })
    (hd : d.Sound mint) (hm : mint.Fresh s.store.drawn) (hquiet : ∀ key, .meddled key ∉ es)
    (hwrite : ∀ {t j}, .began t j ∈ es → j.IsWrite) (hle : s.store.Extends D) :
    Ledger w D es s := by
  induction hr with
  | refl =>
      rw [hs₀]
      exact ledger_start w D d _
  | @step s s' es es' hr hs ih =>
      have hm' := hm.mono hs.drawn_le
      have hquiet' : ∀ key, .meddled key ∉ es :=
        fun key hk => hquiet key (List.mem_append_left _ hk)
      have hsourced := hr.sourced hm' hquiet' (hs₀ ▸ sourced_start w hd m)
      have hextends := (hs.extends_store hsourced.sound hm).2.trans hle
      have hledger := ih hm' hquiet' (fun hj => hwrite (List.mem_append_left _ hj)) hextends
      exact hledger.step hs hsourced hextends fun hj => hwrite (List.mem_append_right _ hj)

end System

end UserDirectory
