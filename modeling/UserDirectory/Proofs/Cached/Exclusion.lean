import UserDirectory.Proofs.Cached.Successor
import UserDirectory.Proofs.Cached.System

/-!
No two tasks are under one fence. `Orderly` says that the fences agree with where the tasks stand
and that no reading of the clock is ahead of it; every step keeps it.
-/

namespace UserDirectory

/-- The fence that a task holds. -/
def Process.held? (p : Process) : Option Uuid :=
  match p.standing with
  | .replied _ => p.stage.fenced?
  | _ => p.stage.held?

/-- The fence that a task waits for. -/
def Process.awaited? (p : Process) : Option Uuid :=
  match p.standing with
  | .queued => p.stage.awaited?
  | _ => none

/-- Whether the reply that a task has is one to what it asked for. -/
def Process.Fits (w : Wiring) (p : Process) : Prop :=
  ∀ r, p.standing = .replied r → r.Fits (p.stage.request w)

/-- Whether no reading of the clock that goes with a purpose is later than `c`. -/
def Purpose.Before (c : Nat) : Purpose → Prop
  | .confirm _ n => n ≤ c
  | _ => True

/-- Whether no reading of the clock that goes with a stage is later than `c`. -/
def Stage.Before (c : Nat) : Stage → Prop
  | .readEntry _ n p | .fetch _ n p => n ≤ c ∧ p.Before c
  | .readIndex _ n | .fetchByEmail _ n | .dropIndex _ (.lookUp _ n) => n ≤ c
  | .awaitWrite _ n p => n ≤ c ∧ ∀ q ∈ p, q.Before c
  | .writeEntry _ p | .writeIndex _ p => ∀ q ∈ p, q.Before c
  | _ => True

variable {w : Wiring} {f : Fences} {id : Uuid} {u : User} {n c : Nat}

theorem Purpose.Before.mono {p : Purpose} {c c' : Nat} (h : p.Before c) (hc : c ≤ c') :
    p.Before c' := by
  cases p with
  | confirm email n => exact Nat.le_trans h hc
  | answer => trivial
  | amend patch => trivial

theorem Stage.Before.mono {s : Stage} {c c' : Nat} (h : s.Before c) (hc : c ≤ c') :
    s.Before c' := by
  cases s with
  | readEntry id n p => exact ⟨Nat.le_trans h.1 hc, h.2.mono hc⟩
  | fetch id n p => exact ⟨Nat.le_trans h.1 hc, h.2.mono hc⟩
  | readIndex email n => exact Nat.le_trans h hc
  | fetchByEmail email n => exact Nat.le_trans h hc
  | awaitWrite u n p => exact ⟨Nat.le_trans h.1 hc, fun q hq => (h.2 q hq).mono hc⟩
  | writeEntry u p => exact fun q hq => (h q hq).mono hc
  | writeIndex u p => exact fun q hq => (h q hq).mono hc
  | dropIndex email afterwards =>
      cases afterwards with
      | lookUp email n => exact Nat.le_trans h hc
      | answer emails a => trivial
  | readReplaced u => trivial
  | save u replaced => trivial
  | readDoomed id => trivial
  | delete id email => trivial
  | awaitDrop id emails a => trivial
  | dropEntry id emails a => trivial
  | query params => trivial
  | getVersion v => trivial

theorem Purpose.Continues.before {p : Purpose} {s : Stage} (h : p.Continues w u s)
    (hp : p.Before c) : s.Before c := by
  cases h with
  | saving => trivial
  | replacing => trivial
  | stale he => exact hp

theorem Stage.Successor.before {s s' : Stage} {r : Reply} (h : s.Successor w f r s')
    (hs : s.Before f.clock) : s'.Before f.clock := by
  cases h with
  | hit hu h => exact h.before hs.2
  | miss hr => exact hs
  | populating => exact ⟨hs.1, by simpa using hs.2⟩
  | fetched h => exact h.before hs.2
  | lost => exact hs.2
  | indexed hid => exact ⟨Nat.le_refl _, hs⟩
  | unindexed hr => exact hs
  | found => exact ⟨hs, by simp [Purpose.Before]⟩
  | admitted hn => exact hs.2
  | skipped hn h => exact h.before (hs.2 _ rfl)
  | entryWritten he => exact hs
  | written h => exact h.before (hs _ rfl)
  | indexWritten h => exact h.before (hs _ rfl)
  | lookingUp => exact hs
  | _ => trivial

theorem Stage.Spawns.before {s : Stage} {r : Reply} (h : s.Spawns r u n) (hs : s.Before c) :
    n ≤ c := by
  cases h with
  | fetched => exact hs.1
  | found => exact hs

theorem Job.Starts.before {j : Job} {s : Stage} (h : j.Starts w f s) : s.Before f.clock := by
  cases h with
  | read hw => exact ⟨Nat.le_refl _, trivial⟩
  | fetch hw => exact ⟨Nat.le_refl _, trivial⟩
  | readIndex hw => exact Nat.le_refl _
  | fetchByEmail hw => exact Nat.le_refl _
  | amend hw => exact ⟨Nat.le_refl _, trivial⟩
  | amendStored hw => exact ⟨Nat.le_refl _, trivial⟩
  | _ => trivial

theorem Job.Starts.free {j : Job} {s : Stage} (h : j.Starts w f s) :
    s.held? = none ∧ s.awaited? = none := by
  cases h <;> exact ⟨rfl, rfl⟩

theorem Process.free_of_stage {p : Process} (h : p.stage.awaited? = none) :
    p.held? = p.stage.held? ∧ p.awaited? = none := by
  rcases p with ⟨st, sd⟩
  cases sd with
  | ready => exact ⟨rfl, rfl⟩
  | queued => exact ⟨rfl, h⟩
  | replied r => exact ⟨Stage.fenced?_eq_held? h, rfl⟩

theorem Process.held?_eq (p : Process) (h : p.stage.fenced? = some id) :
    p.held? = none ∨ p.held? = some id := by
  rcases p with ⟨st, sd⟩
  have hst : st.held? = none ∨ st.held? = some id := by
    rcases hs : st.held? with _ | id'
    · exact Or.inl rfl
    · exact Or.inr ((Stage.fenced?_of_held? hs).symm.trans h)
  cases sd with
  | ready => exact hst
  | queued => exact hst
  | replied r => exact Or.inr h

theorem Process.awaited?_eq (p : Process) (h : p.stage.fenced? = some id) :
    p.awaited? = none ∨ p.awaited? = some id := by
  rcases p with ⟨st, sd⟩
  cases sd with
  | queued =>
      rcases hs : st.awaited? with _ | id'
      · exact Or.inl hs
      · exact Or.inr (hs.trans ((Stage.fenced?_of_awaited? hs).symm.trans h))
  | ready => exact Or.inl rfl
  | replied r => exact Or.inl rfl

theorem Reply.fits_cache {st : Stage} {q : CacheRequest} {c : CacheReply}
    (h : st.request w = .cache q) : (Reply.cache c).Fits (st.request w) := by
  rw [h]
  trivial

theorem Reply.fits_store {st : Stage} {q : StoreRequest} {a : StoreReply}
    (h : st.request w = .store q) : (Reply.store a).Fits (st.request w) := by
  rw [h]
  trivial

theorem Reply.Fits.awaited?_eq_none {st : Stage} {r : Reply} (h : r.Fits (st.request w))
    (hr : r ≠ .granted) : st.awaited? = none := by
  rcases ha : st.awaited? with _ | id
  · rfl
  · rw [Stage.request_eq_fence_iff.mpr ha] at h
    exact absurd h.granted hr

namespace System

def held? (s : System) (t : TaskId) : Option Uuid := (s.tasks t).bind Process.held?

def awaited? (s : System) (t : TaskId) : Option Uuid := (s.tasks t).bind Process.awaited?

structure Orderly (w : Wiring) (s : System) : Prop where
  owned : s.fences.Owned s.held? s.awaited?
  fits : ∀ t p, s.tasks t = some p → p.Fits w
  unused : ∀ t, s.nextTask ≤ t → s.tasks t = none
  stamps : ∀ id, (s.fences.fence id).stamp ≤ s.fences.clock
  readings : ∀ t p, s.tasks t = some p → p.stage.Before s.fences.clock

/-- What holds of the tasks even if the fences are not to be relied upon: the replies that they
have are ones to what they asked for, names that have not been given are not used, and no task
gets a fence that does not wait for it. -/
structure Tidy (w : Wiring) (s : System) : Prop where
  fits : ∀ t p, s.tasks t = some p → p.Fits w
  unused : ∀ t, s.nextTask ≤ t → s.tasks t = none
  waiting : ∀ id t, t ∈ (s.fences.fence id).waiting → s.awaited? t = some id

variable {mint : Mint} {s s' : System} {es : List Event} {t u : TaskId} {st : Stage}
  {sd : Standing} {r : Reply}

theorem Orderly.tidy (h : Orderly w s) : Tidy w s :=
  ⟨h.fits, h.unused, fun id t => (h.owned.waiting id t).mp⟩

theorem orderly_start (d : Directory) (c : MemoryCache) :
    Orderly w { store := d, cache := c } where
  owned :=
    { holder := fun id t => by simp [held?, Fences.fence]
      waiting := fun id t => by simp [awaited?, Fences.fence]
      nodup := fun id => by simp [Fences.fence]
      idle := fun id h => by simp [Fences.fence]
      apart := fun t => Or.inl rfl }
  fits := fun t p h => by cases h
  unused := fun t h => rfl
  stamps := fun id => by simp [Fences.fence]
  readings := fun t p h => by cases h

theorem Tidy.lt_nextTask {p : Process} (h : Tidy w s) (hp : s.tasks t = some p) :
    t < s.nextTask := by
  by_contra hle
  rw [h.unused t (Nat.le_of_not_lt hle)] at hp
  cases hp

theorem Orderly.lt_nextTask {p : Process} (h : Orderly w s) (hp : s.tasks t = some p) :
    t < s.nextTask :=
  h.tidy.lt_nextTask hp

theorem held?_of_tasks {p : Process} (ht : s.tasks t = some p) : s.held? t = p.held? := by
  rw [held?, ht, Option.bind_some]

theorem awaited?_of_tasks {p : Process} (ht : s.tasks t = some p) :
    s.awaited? t = p.awaited? := by
  rw [awaited?, ht, Option.bind_some]

theorem awaited?_eq_some (h : s.awaited? t = some id) :
    ∃ st, s.tasks t = some ⟨st, .queued⟩ ∧ st.awaited? = some id := by
  obtain ⟨⟨st, sd⟩, hp, ha⟩ := Option.bind_eq_some_iff.mp h
  cases sd with
  | queued => exact ⟨st, hp, ha⟩
  | ready => cases ha
  | replied r => cases ha

section Change

variable {f : Fences} {next : Option Process} {id : Uuid} {woken : Option TaskId}

theorem tasks_change_of_woken (hwoken : ∀ u, woken = some u → u ≠ t ∧ s.awaited? u = some id)
    (hu : woken = some u) :
    ∃ st, s.tasks u = some ⟨st, .queued⟩ ∧ st.awaited? = some id ∧
      (({ s with fences := f }.setTask t next).grant woken).tasks u =
        some ⟨st, .replied .granted⟩ := by
  obtain ⟨hne, hwaits⟩ := hwoken u hu
  obtain ⟨st, hst, ha⟩ := awaited?_eq_some hwaits
  refine ⟨st, hst, ha, ?_⟩
  rw [tasks_grant, if_pos hu, tasks_setTask, if_neg hne, hst]
  rfl

theorem tasks_change_of_ne (hu : woken ≠ some u) :
    (({ s with fences := f }.setTask t next).grant woken).tasks u =
      if u = t then next else s.tasks u := by
  rw [tasks_grant, if_neg hu]
  rfl

theorem held?_change (hwoken : ∀ u, woken = some u → u ≠ t ∧ s.awaited? u = some id) :
    (({ s with fences := f }.setTask t next).grant woken).held? = fun u =>
      if woken = some u then some id else
        if u = t then next.bind Process.held? else s.held? u := by
  funext u
  by_cases hu : woken = some u
  · obtain ⟨st, -, ha, htasks⟩ := tasks_change_of_woken hwoken hu
    rw [held?_of_tasks htasks, if_pos hu]
    exact Stage.fenced?_of_awaited? ha
  · simp only [held?, tasks_change_of_ne hu, if_neg hu]
    split <;> rfl

theorem awaited?_change (hwoken : ∀ u, woken = some u → u ≠ t ∧ s.awaited? u = some id) :
    (({ s with fences := f }.setTask t next).grant woken).awaited? = fun u =>
      if woken = some u then none else
        if u = t then next.bind Process.awaited? else s.awaited? u := by
  funext u
  by_cases hu : woken = some u
  · obtain ⟨st, -, -, htasks⟩ := tasks_change_of_woken hwoken hu
    rw [awaited?_of_tasks htasks, if_pos hu]
    rfl
  · simp only [awaited?, tasks_change_of_ne hu, if_neg hu]
    split <;> rfl

/-- A task goes on, the fences change with it, and a task that waited for a fence may get it. -/
theorem Orderly.change (h : Orderly w s) (id : Uuid) (woken : Option TaskId)
    (ht : s.tasks t ≠ none)
    (hwoken : ∀ u, woken = some u → u ≠ t ∧ s.awaited? u = some id)
    (howned : f.Owned
      (fun u => if woken = some u then some id else
        if u = t then next.bind Process.held? else s.held? u)
      (fun u => if woken = some u then none else
        if u = t then next.bind Process.awaited? else s.awaited? u))
    (hfits : ∀ p ∈ next, p.Fits w) (hbefore : ∀ p ∈ next, p.stage.Before f.clock)
    (hclock : s.fences.clock ≤ f.clock) (hstamps : ∀ id, (f.fence id).stamp ≤ f.clock) :
    Orderly w (({ s with fences := f }.setTask t next).grant woken) := by
  constructor
  · rw [held?_change hwoken, awaited?_change hwoken, fences_grant]
    exact howned
  · intro u p hp
    by_cases hu : woken = some u
    -- The task that is woken gets the reply it has waited for, a fence.
    · obtain ⟨st, -, ha, htasks⟩ := tasks_change_of_woken hwoken hu
      rw [htasks] at hp
      cases hp
      rintro r ⟨⟩
      rw [Stage.request_eq_fence_iff.mpr ha]
      trivial
    · rw [tasks_change_of_ne hu] at hp
      split at hp
      · exact hfits p hp
      · exact h.fits u p hp
  · intro u hu
    rw [nextTask_grant] at hu
    have hnone : s.tasks u = none := h.unused u hu
    have hne : woken ≠ some u := by
      intro hw
      obtain ⟨st, hst, -⟩ := awaited?_eq_some (hwoken u hw).2
      rw [hnone] at hst
      cases hst
    rw [tasks_change_of_ne hne, if_neg, hnone]
    rintro rfl
    exact ht hnone
  · intro id'
    rw [fences_grant]
    exact hstamps id'
  · intro u p hp
    rw [fences_grant]
    by_cases hu : woken = some u
    · obtain ⟨st, hst, -, htasks⟩ := tasks_change_of_woken hwoken hu
      rw [htasks] at hp
      cases hp
      have hb := h.readings u _ hst
      exact hb.mono hclock
    · rw [tasks_change_of_ne hu] at hp
      split at hp
      · exact hbefore p hp
      · exact (h.readings u p hp).mono hclock

end Change

theorem set_eq_self {g : TaskId → Option Uuid} {x : Option Uuid} (hx : g t = x) :
    (fun u => if u = t then x else g u) = g := by
  funext u
  split
  · subst u
    exact hx.symm
  · rfl

theorem Orderly.reply (h : Orderly w s) (ht : s.tasks t = some ⟨st, sd⟩)
    (hr : r.Fits (st.request w)) (hne : r ≠ .granted) :
    Orderly w (s.setTask t (some ⟨st, .replied r⟩)) := by
  have ha := hr.awaited?_eq_none hne
  obtain ⟨hfree, hidle⟩ := Process.free_of_stage (p := ⟨st, sd⟩) ha
  obtain ⟨hfree', hidle'⟩ := Process.free_of_stage (p := ⟨st, .replied r⟩) ha
  have hheld : s.held? t = Process.held? ⟨st, .replied r⟩ := by
    rw [held?_of_tasks ht, hfree, hfree']
  have hawaited : s.awaited? t = Process.awaited? ⟨st, .replied r⟩ := by
    rw [awaited?_of_tasks ht, hidle, hidle']
  refine h.change Uuid.nil none (by simp [ht]) (by simp) ?_ ?_ ?_
    (Nat.le_refl _) h.stamps
  · simp only [reduceCtorEq, if_false, Option.bind_some]
    rw [set_eq_self hheld, set_eq_self hawaited]
    exact h.owned
  · rintro p ⟨⟩ r' ⟨⟩
    exact hr
  · rintro p ⟨⟩
    have hb := h.readings t _ ht
    exact hb

theorem Orderly.spawn (h : Orderly w s) (hfree : st.held? = none)
    (hb : st.Before s.fences.clock) : Orderly w (s.spawn st) := by
  have hnone : s.tasks s.nextTask = none := h.unused _ (Nat.le_refl _)
  have hheld : (s.spawn st).held? = s.held? := by
    funext u
    simp only [held?, tasks_spawn]
    split
    · subst u
      simp [hnone, Process.held?, hfree]
    · rfl
  have hawaited : (s.spawn st).awaited? = s.awaited? := by
    funext u
    simp only [awaited?, tasks_spawn]
    split
    · subst u
      simp [hnone, Process.awaited?]
    · rfl
  constructor
  · rw [hheld, hawaited]
    exact h.owned
  · intro u p hp
    rw [tasks_spawn] at hp
    split at hp
    · cases hp
      rintro r ⟨⟩
    · exact h.fits u p hp
  · intro u hu
    have hlt : s.nextTask < u := hu
    rw [tasks_spawn, if_neg (Nat.ne_of_gt hlt)]
    exact h.unused u (Nat.le_of_lt hlt)
  · exact h.stamps
  · intro u p hp
    rw [tasks_spawn] at hp
    split at hp
    · cases hp
      exact hb
    · exact h.readings u p hp

theorem Orderly.spawn? (h : Orderly w s) (o : Option Stage) (hfree : ∀ st ∈ o, st.held? = none)
    (hb : ∀ st ∈ o, st.Before s.fences.clock) : Orderly w (s.spawn? o) := by
  cases o with
  | none => exact h
  | some st => exact h.spawn (hfree st rfl) (hb st rfl)

theorem Orderly.ask (h : Orderly w s) (ht : s.tasks t = some ⟨st, .ready⟩)
    (hq : st.request w = .fence id) :
    Orderly w ({ s with fences := (s.fences.acquire id t).2 }.setTask t
      (some ⟨st, if (s.fences.acquire id t).1 then .replied .granted else .queued⟩)) := by
  have ha := Stage.request_eq_fence_iff.mp hq
  have hheld : s.held? t = none := (held?_of_tasks ht).trans (Stage.held?_eq_none ha)
  have hawaited : s.awaited? t = none := awaited?_of_tasks ht
  refine h.change Uuid.nil none (by simp [ht]) (by simp) ?_ ?_ ?_ (by simp)
    (by simpa using h.stamps)
  · simp only [reduceCtorEq, if_false, Option.bind_some]
    by_cases hfree : (s.fences.acquire id t).1 = true
    · have hheld' : Process.held? ⟨st, .replied .granted⟩ = some id :=
        Stage.fenced?_of_awaited? ha
      have hawaited' : s.awaited? t = Process.awaited? ⟨st, .replied .granted⟩ := hawaited
      rw [if_pos hfree, hheld', set_eq_self hawaited']
      exact h.owned.acquire_granted hfree hheld hawaited
    · have hheld' : s.held? t = Process.held? ⟨st, .queued⟩ :=
        hheld.trans (Stage.held?_eq_none ha).symm
      have hawaited' : Process.awaited? ⟨st, .queued⟩ = some id := ha
      rw [if_neg hfree, hawaited', set_eq_self hheld']
      exact h.owned.acquire_queued (Bool.not_eq_true _ ▸ hfree) hheld hawaited
  · rintro p ⟨⟩ r hr
    dsimp only at hr
    split at hr
    · cases hr
      rw [hq]
      trivial
    · cases hr
  · rintro p ⟨⟩
    have hb := h.readings t _ ht
    simpa using hb

theorem Tidy.awaited_of_release (h : Tidy w s) (hu : (s.fences.release id).1 = some u) :
    s.awaited? u = some id :=
  h.waiting id u (Fences.mem_waiting_of_release hu)

theorem Tidy.awaited_of_abandon (h : Tidy w s) (hu : (s.fences.abandon id t).1 = some u) :
    s.awaited? u = some id :=
  h.awaited_of_release (Fences.holder_of_abandon hu).2

theorem Orderly.awaited_of_release (h : Orderly w s) (ht : s.held? t = some id) (u : TaskId)
    (hu : (s.fences.release id).1 = some u) : u ≠ t ∧ s.awaited? u = some id := by
  have hwaits := h.tidy.awaited_of_release hu
  refine ⟨?_, hwaits⟩
  rintro rfl
  rcases h.owned.apart u with hn | hn
  · rw [ht] at hn
    cases hn
  · rw [hwaits] at hn
    cases hn

theorem Orderly.awaited_of_abandon (h : Orderly w s) (u : TaskId)
    (hu : (s.fences.abandon id t).1 = some u) : u ≠ t ∧ s.awaited? u = some id := by
  obtain ⟨hholder, hrelease⟩ := Fences.holder_of_abandon hu
  exact h.awaited_of_release ((h.owned.holder id t).mp hholder) u hrelease

theorem Tidy.awaited_of_turn (h : Tidy w s) (ht : s.tasks t = some ⟨st, .replied r⟩)
    (hu : (st.turn w s.fences r).woken = some u) : u ≠ t ∧ ∃ id, s.awaited? u = some id := by
  rcases turn_keeps_or_leaves st (h.fits t _ ht r rfl) (f := s.fences) with hk | ⟨id, -, hl⟩
  · rw [hk.woken] at hu
    cases hu
  · rw [hl.woken] at hu
    have hwaits := h.awaited_of_release hu
    refine ⟨?_, id, hwaits⟩
    rintro rfl
    rw [awaited?_of_tasks ht] at hwaits
    cases hwaits

theorem Tidy.woken_ne (h : Tidy w s) (ht : s.tasks t = some ⟨st, .replied r⟩) :
    (st.turn w s.fences r).woken ≠ some t :=
  fun hw => (h.awaited_of_turn ht hw).1 rfl

theorem Tidy.tasks_turn (h : Tidy w s) (ht : s.tasks t = some ⟨st, .replied r⟩) :
    (s.turn w t st r).tasks t = (st.turn w s.fences r).next.process? := by
  have hlt : t ≠ s.nextTask := by
    rintro rfl
    rw [h.unused _ (Nat.le_refl _)] at ht
    cases ht
  rw [System.tasks_turn, tasks_spawn?, nextTask_grant, nextTask_setTask, if_neg hlt, tasks_grant,
    if_neg (h.woken_ne ht), tasks_setTask, if_pos rfl]

theorem Tidy.successor (h : Tidy w s) (ht : s.tasks t = some ⟨st, .replied r⟩) {st' : Stage}
    (hnext : (st.turn w s.fences r).next = .stage st') : st.Successor w s.fences r st' :=
  (turn_leadsTo st (h.fits t _ ht r rfl)).stage st' hnext

theorem Tidy.results (h : Tidy w s) (ht : s.tasks t = some ⟨st, .replied r⟩) {a : StoreReply}
    (hnext : (st.turn w s.fences r).next = .finished a) : st.Results w r a :=
  (turn_leadsTo st (h.fits t _ ht r rfl)).finished a hnext

theorem Tidy.spawns (h : Tidy w s) (ht : s.tasks t = some ⟨st, .replied r⟩) {st' : Stage}
    (hst : (st.turn w s.fences r).spawned = some st') :
    ∃ u n, st' = .awaitWrite u n none ∧ st.Spawns r u n :=
  (turn_leadsTo st (h.fits t _ ht r rfl)).spawned st' hst

theorem Orderly.turn (h : Orderly w s) (ht : s.tasks t = some ⟨st, .replied r⟩) :
    Orderly w (s.turn w t st r) := by
  have hr := h.fits t _ ht r rfl
  have hb : st.Before s.fences.clock := h.readings t _ ht
  have hheld : s.held? t = st.fenced? := held?_of_tasks ht
  have hawaited : s.awaited? t = none := awaited?_of_tasks ht
  have hready : (st.turn w s.fences r).next.process?.bind Process.awaited? = none := by
    cases (st.turn w s.fences r).next <;> rfl
  have hnext : (st.turn w s.fences r).next.process?.bind Process.held? =
      (st.turn w s.fences r).next.held? := by
    cases (st.turn w s.fences r).next <;> rfl
  have hclock : s.fences.clock ≤ (st.turn w s.fences r).fences.clock := by
    rcases turn_keeps_or_leaves st hr (f := s.fences) with hk | ⟨id, -, hl⟩
    · exact hk.clock_le
    · exact Nat.le_of_eq hl.clock_eq.symm
  have hfits : ∀ p ∈ (st.turn w s.fences r).next.process?, p.Fits w := by
    intro p hp r' hr'
    rw [(process?_eq_some hp).2] at hr'
    cases hr'
  have hbefore : ∀ p ∈ (st.turn w s.fences r).next.process?,
      p.stage.Before (st.turn w s.fences r).fences.clock := by
    intro p hp
    exact ((h.tidy.successor ht (process?_eq_some hp).1).before hb).mono hclock
  have hbase : Orderly w (({ s with fences := (st.turn w s.fences r).fences }.setTask t
      (st.turn w s.fences r).next.process?).grant (st.turn w s.fences r).woken) := by
    rcases turn_keeps_or_leaves st hr (f := s.fences) with hk | ⟨id, hid, hl⟩
    · refine h.change Uuid.nil _ (by simp [ht]) (by simp [hk.woken]) ?_ hfits hbefore
        hclock (hk.stamp_le h.stamps)
      simp only [hk.woken, reduceCtorEq, if_false]
      rw [hready, hnext, hk.held, set_eq_self hheld, set_eq_self hawaited]
      exact hk.owned h.owned
    · have hholds : s.held? t = some id := hheld.trans hid
      refine h.change id _ (by simp [ht]) ?_ ?_ hfits hbefore hclock ?_
      · rw [hl.woken]
        exact h.awaited_of_release hholds
      · rw [hready, hnext, hl.held, hl.woken, hl.fences]
        exact h.owned.release hholds
      · intro id'
        rw [hl.stamp_eq, hl.clock_eq]
        exact h.stamps id'
  refine hbase.spawn? _ ?_ ?_
  · intro st' hst'
    obtain ⟨v, n, rfl, -⟩ := h.tidy.spawns ht hst'
    rfl
  · intro st' hst'
    obtain ⟨v, n, rfl, hspawns⟩ := h.tidy.spawns ht hst'
    rw [fences_grant]
    exact ⟨Nat.le_trans (hspawns.before hb) hclock, by simp⟩

theorem cancel_of_free {p : Process} (h : p.stage.fenced? = none) :
    s.cancel t p = s.setTask t none := by
  simp only [System.cancel, h]

theorem cancel_of_fenced {p : Process} (h : p.stage.fenced? = some id) :
    s.cancel t p = ({ s with fences := (s.fences.abandon id t).2 }.setTask t none).grant
      (s.fences.abandon id t).1 := by
  simp only [System.cancel, h]
  rfl

theorem Orderly.cancel (h : Orderly w s) {p : Process} (ht : s.tasks t = some p) :
    Orderly w (s.cancel t p) := by
  have hheld := held?_of_tasks ht
  have hawaited := awaited?_of_tasks ht
  rcases hid : p.stage.fenced? with _ | id
  · have hnone : p.stage.awaited? = none := by
      rcases ha : p.stage.awaited? with _ | id
      · rfl
      · rw [Stage.fenced?_of_awaited? ha] at hid
        cases hid
    have hfree := Process.free_of_stage hnone
    rw [← Stage.fenced?_eq_held? hnone, hid] at hfree
    rw [cancel_of_free hid]
    refine h.change Uuid.nil none (by simp [ht]) (by simp) ?_ (by simp)
      (by simp) (Nat.le_refl _) h.stamps
    simp only [reduceCtorEq, if_false, Option.bind_none]
    rw [set_eq_self (hheld.trans hfree.1), set_eq_self (hawaited.trans hfree.2)]
    exact h.owned
  · have hholds : s.held? t = none ∨ s.held? t = some id := by
      rw [hheld]
      exact p.held?_eq hid
    have hwaits : s.awaited? t = none ∨ s.awaited? t = some id := by
      rw [hawaited]
      exact p.awaited?_eq hid
    rw [cancel_of_fenced hid]
    exact h.change id _ (by simp [ht]) h.awaited_of_abandon (h.owned.abandon hholds hwaits)
      (by simp) (by simp) (by simp) (by simpa using h.stamps)

theorem Orderly.eq_of_held? (h : Orderly w s) {p q : Process} (ht : s.tasks t = some p)
    (hu : s.tasks u = some q) (hp : p.held? = some id) (hq : q.held? = some id) : t = u :=
  h.owned.unique ((held?_of_tasks ht).trans hp) ((held?_of_tasks hu).trans hq)

theorem Orderly.frame (h : Orderly w s) (d : Directory) (c : MemoryCache) (n : Nat) :
    Orderly w { s with store := d, cache := c, now := n } :=
  ⟨h.owned, h.fits, h.unused, h.stamps, h.readings⟩

theorem Orderly.skip (h : Orderly w s) : Orderly w { s with nextTask := s.nextTask + 1 } :=
  ⟨h.owned, h.fits, fun t ht => h.unused t (Nat.le_of_succ_le ht), h.stamps, h.readings⟩

theorem Step.orderly (hs : Step w mint s es s') (h : Orderly w s) : Orderly w s' := by
  cases hs with
  | begin hj => exact h.spawn (start_starts hj).free.1 (start_starts hj).before
  | reject e => exact h.skip
  | exchange ht hq => exact (h.frame s.store _ s.now).reply ht (Reply.fits_cache hq) (by simp)
  | fail ht hq => exact h.reply ht (Reply.fits_cache hq) (by simp)
  | serve ht hq => exact (h.frame _ s.cache s.now).reply ht (Reply.fits_store hq) (by simp)
  | refuse ht hq _ => exact h.reply ht (Reply.fits_store hq) (by simp)
  | ask ht hq => exact h.ask ht hq
  | turn ht => exact h.turn ht
  | cancel ht => exact h.cancel ht
  | evict key => exact h.frame s.store _ s.now
  | meddle key bytes lifetime => exact h.frame s.store _ s.now
  | elapse ms => exact h.frame s.store s.cache _

theorem Run.orderly {d : Directory} {c : MemoryCache}
    (h : Run w mint { store := d, cache := c } es s) : Orderly w s :=
  h.inv (Orderly w) Step.orderly (orderly_start d c)

end System

end UserDirectory
