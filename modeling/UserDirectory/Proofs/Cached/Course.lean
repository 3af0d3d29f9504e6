import UserDirectory.Proofs.Cached.Coherence

namespace UserDirectory.System

/-- A course of steps from a coherent state in which nobody else writes the cache. -/
structure Course (w : Wiring) (mint : Mint) (s : System) (es : List Event) (s' : System) :
    Prop where
  run : Run w mint s es s'
  quiet : ∀ key, .meddled key ∉ es
  fresh : mint.Fresh s'.store.drawn
  start : Coherent w mint s

/-- A step of such a course, of which `E` is seen and in which the store does not grow beyond
`d`. -/
structure Stride (w : Wiring) (mint : Mint) (E : List Event) (d : Directory) (s : System)
    (es : List Event) (s' : System) : Prop where
  step : Step w mint s es s'
  seen : es ⊆ E
  quiet : ∀ key, .meddled key ∉ es
  coherent : Coherent w mint s
  grows : s.store.Extends s'.store
  limit : s'.store.Extends d
  sound : d.Sound mint

/-- A call in such a course, from its start to its return. -/
structure Call (w : Wiring) (mint : Mint) (s : System) (es : List Event) (s' : System)
    (t : TaskId) (j : Job) (a : StoreReply) where
  {earlier : List Event}
  {first : System}
  {stage : Stage}
  {during : List Event}
  {last : System}
  {returning : List Event}
  {next : System}
  {later : List Event}
  events : es = earlier ++ .began t j :: (during ++ (returning ++ later))
  before : Course w mint s earlier first
  start : j.start w first.fences = .stage stage
  name : t = first.nextTask
  course : Course w mint (first.spawn stage) during last
  step : Step w mint last returning next
  returned : .returned t a ∈ returning
  after : Course w mint next later s'

variable {w : Wiring} {mint : Mint} {s s' x : System} {es es' E l : List Event} {d : Directory}
  {t : TaskId} {j : Job} {a : StoreReply}

theorem Stride.limit_before (h : Stride w mint E d s es s') : s.store.Extends d :=
  h.grows.trans h.limit

namespace Course

theorem of_run {cfg : UserCacheConfig} {m : Nat} (hd : d.Reachable mint)
    (h : Run (some cfg) mint { store := d, cache := { maxLifetime := m } } es s)
    (hm : mint.Fresh s.store.drawn) (hquiet : ∀ key, .meddled key ∉ es) :
    Course (some cfg) mint { store := d, cache := { maxLifetime := m } } es s where
  run := h
  quiet := hquiet
  fresh := hm
  start := coherent_start (hd.sound (hm.mono h.drawn_le)) m

theorem coherent (h : Course w mint s es s') : Coherent w mint s' :=
  h.run.coherent h.quiet h.fresh h.start

theorem start_fresh (h : Course w mint s es s') : mint.Fresh s.store.drawn :=
  h.fresh.mono h.run.drawn_le

theorem extends_store (h : Course w mint s es s') : s.store.Extends s'.store :=
  (h.run.extends_store h.start.sound h.fresh).2

theorem of_append (h : Course w mint s (es ++ es') s') (h₁ : Run w mint s es x)
    (h₂ : Run w mint x es' s') : Course w mint s es x ∧ Course w mint x es' s' := by
  have hquiet : ∀ key, .meddled key ∉ es := fun key hk => h.quiet key (List.mem_append_left _ hk)
  have hm := h.fresh.mono h₂.drawn_le
  have hfirst : Course w mint s es x := ⟨h₁, hquiet, hm, h.start⟩
  exact ⟨hfirst, h₂, fun key hk => h.quiet key (List.mem_append_right _ hk), h.fresh,
    hfirst.coherent⟩

theorem inv (I : System → Prop) (h : Course w mint s es s') (hes : es ⊆ E) (hd : d.Sound mint)
    (hle : s'.store.Extends d)
    (hstep : ∀ {x es x'}, Stride w mint E d x es x' → I x → I x') (hI : I s) : I s' := by
  obtain ⟨hrun, hquiet, hm, hc⟩ := h
  induction hrun with
  | refl => exact hI
  | @step x x' es es' hrun hx ih =>
      have hcourse : Course w mint s es x ∧ Course w mint x es' x' :=
        of_append ⟨hrun.step hx, hquiet, hm, hc⟩ hrun (.single hx)
      have hgrows := hcourse.2.extends_store
      have hstride : Stride w mint E d x es' x' :=
        ⟨hx, (List.append_subset.mp hes).2, hcourse.2.quiet, hcourse.2.start, hgrows, hle, hd⟩
      exact hstep hstride (ih (List.append_subset.mp hes).1 (hgrows.trans hle)
        hcourse.1.quiet hcourse.1.fresh)

theorem call {es₁ es₂ es₃ : List Event} (h : Course w mint s es s')
    (he : es = es₁ ++ .began t j :: (es₂ ++ .returned t a :: es₃)) :
    ∃ c : Call w mint s es s' t j a, c.earlier = es₁ ∧ c.later = es₃ := by
  subst he
  obtain ⟨s₁, st, h₁, hj, rfl, h₂⟩ := h.run.split_began rfl
  obtain ⟨e, es₄, s₃, s₄, rfl, h₃, hs, h₅⟩ := h₂.split_returned rfl
  obtain ⟨hbefore, hrest⟩ := h.of_append h₁ ((Run.single (.begin hj)).trans h₂)
  obtain ⟨-, hrest⟩ := hrest.of_append (.single (.begin hj)) h₂
  have hrest : Course w mint (s₁.spawn st) (es₄ ++ ([e, .returned s₁.nextTask a] ++ es₃)) s' := by
    simpa using hrest
  obtain ⟨hduring, hrest⟩ := hrest.of_append h₃ ((Run.single hs).trans h₅)
  obtain ⟨-, hafter⟩ := hrest.of_append (.single hs) h₅
  exact ⟨⟨by simp, hbefore, hj, rfl, hduring, hs, by simp, hafter⟩, rfl, rfl⟩

end Course

namespace Call

variable (c : Call w mint s es s' t j a)

theorem earlier_subset : c.earlier ⊆ es := by
  intro e he
  rw [c.events]
  simp [he]

theorem during_subset : c.during ⊆ es := by
  intro e he
  rw [c.events]
  simp [he]

theorem returning_subset : c.returning ⊆ es := by
  intro e he
  rw [c.events]
  simp [he]

theorem span_subset : c.during ++ c.returning ⊆ es :=
  List.append_subset.mpr ⟨c.during_subset, c.returning_subset⟩

theorem eq_of_tasks {p : Process} (hp : (c.first.spawn c.stage).tasks t = some p) :
    p = ⟨c.stage, .ready⟩ := by
  rw [tasks_spawn, if_pos c.name] at hp
  exact (Option.some.inj hp).symm

theorem tasks_of_ne {u : TaskId} {p : Process} (hp : (c.first.spawn c.stage).tasks u = some p)
    (hu : some u ≠ some t) : c.first.tasks u = some p := by
  have hne : u ≠ c.first.nextTask := fun he => hu (congrArg some (he.trans c.name.symm))
  rwa [tasks_spawn, if_neg hne] at hp

theorem lt_nextTask : t < (c.first.spawn c.stage).nextTask :=
  Nat.lt_succ_of_le (Nat.le_of_eq c.name)

theorem stride (h : Course w mint s es s') (hE : c.returning ⊆ E) :
    Stride w mint E s'.store c.last c.returning c.next where
  step := c.step
  seen := hE
  quiet key hk := h.quiet key (c.returning_subset hk)
  coherent := c.course.coherent
  grows := (c.step.extends_store c.course.coherent.sound
    (h.fresh.mono c.after.run.drawn_le)).2
  limit := c.after.extends_store
  sound := h.coherent.sound

theorem begins (h : Course w mint s es s') :
    Stride w mint es s'.store c.first [.began t j] (c.first.spawn c.stage) where
  step := by
    have hs : Step w mint c.first [.began c.first.nextTask j] (c.first.spawn c.stage) :=
      .begin c.start
    rw [← c.name] at hs
    exact hs
  seen e he := by
    rw [c.events, List.mem_singleton.mp he]
    simp
  quiet := by simp
  coherent := c.before.coherent
  grows := .refl _
  limit := c.course.extends_store.trans (c.stride h c.returning_subset).limit_before
  sound := h.coherent.sound

def past : List Event := c.earlier ++ .began t j :: (c.during ++ c.returning)

theorem past_append : es = c.past ++ c.later :=
  c.events.trans (by simp [past])

theorem course_next (h : Course w mint s es s') : Course w mint s c.past c.next := by
  have hrun : Run w mint s c.past c.next := by
    have hcalled := c.course.run.step c.step
    simpa [past] using (c.before.run.step (c.begins h).step).trans hcalled
  have hes : Course w mint s (c.past ++ c.later) s' := c.past_append ▸ h
  exact (hes.of_append hrun c.after.run).1

end Call

end UserDirectory.System
