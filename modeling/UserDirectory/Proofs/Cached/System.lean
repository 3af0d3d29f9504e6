import UserDirectory.Proofs.Cached.Turn

namespace UserDirectory

theorem Next.of_mem_turned {t : TaskId} {st : Stage} {r : Reply} {n : Next} {e : Event}
    (h : e ∈ Event.turned t st r :: n.events t) :
    e = .turned t st r ∨ ∃ a, n = .finished a ∧ e = .returned t a := by
  rcases List.mem_cons.mp h with he | he
  · exact Or.inl he
  · cases n with
    | stage st => cases he
    | finished a => exact Or.inr ⟨a, rfl, List.mem_singleton.mp he⟩

theorem Next.not_mem_turned {t : TaskId} {st : Stage} {r : Reply} {n : Next} {e : Event}
    (hturned : ∀ t st r, e ≠ .turned t st r) (hreturned : ∀ t a, e ≠ .returned t a) :
    e ∉ Event.turned t st r :: n.events t := by
  intro h
  rcases Next.of_mem_turned h with he | ⟨a, -, he⟩
  · exact hturned _ _ _ he
  · exact hreturned _ _ he

namespace System

variable {w : Wiring} {mint : Mint} {s s' s'' : System} {es es' : List Event} {t u : TaskId}

@[simp] theorem tasks_setTask (s : System) (t u : TaskId) (p : Option Process) :
    (s.setTask t p).tasks u = if u = t then p else s.tasks u := rfl

@[simp] theorem store_setTask (s : System) (t : TaskId) (p : Option Process) :
    (s.setTask t p).store = s.store := rfl

@[simp] theorem cache_setTask (s : System) (t : TaskId) (p : Option Process) :
    (s.setTask t p).cache = s.cache := rfl

@[simp] theorem fences_setTask (s : System) (t : TaskId) (p : Option Process) :
    (s.setTask t p).fences = s.fences := rfl

@[simp] theorem now_setTask (s : System) (t : TaskId) (p : Option Process) :
    (s.setTask t p).now = s.now := rfl

@[simp] theorem nextTask_setTask (s : System) (t : TaskId) (p : Option Process) :
    (s.setTask t p).nextTask = s.nextTask := rfl

theorem tasks_grant (s : System) (o : Option TaskId) (u : TaskId) :
    (s.grant o).tasks u =
      if o = some u then (s.tasks u).map fun p => { p with standing := .replied .granted }
      else s.tasks u := by
  cases o with
  | none => rfl
  | some t =>
      simp only [grant, tasks_setTask, Option.some.injEq]
      by_cases h : u = t
      · simp [h]
      · simp [h, Ne.symm h]

@[simp] theorem store_grant (s : System) (o : Option TaskId) : (s.grant o).store = s.store := by
  cases o <;> rfl

@[simp] theorem cache_grant (s : System) (o : Option TaskId) : (s.grant o).cache = s.cache := by
  cases o <;> rfl

@[simp] theorem fences_grant (s : System) (o : Option TaskId) :
    (s.grant o).fences = s.fences := by
  cases o <;> rfl

@[simp] theorem now_grant (s : System) (o : Option TaskId) : (s.grant o).now = s.now := by
  cases o <;> rfl

@[simp] theorem nextTask_grant (s : System) (o : Option TaskId) :
    (s.grant o).nextTask = s.nextTask := by
  cases o <;> rfl

@[simp] theorem tasks_spawn (s : System) (st : Stage) (u : TaskId) :
    (s.spawn st).tasks u = if u = s.nextTask then some ⟨st, .ready⟩ else s.tasks u := rfl

theorem tasks_spawn? (s : System) (o : Option Stage) (u : TaskId) :
    (s.spawn? o).tasks u =
      if u = s.nextTask then (o.map fun st => ⟨st, .ready⟩).or (s.tasks u) else s.tasks u := by
  cases o with
  | none => simp [spawn?]
  | some st => simp [spawn?]

@[simp] theorem store_spawn? (s : System) (o : Option Stage) : (s.spawn? o).store = s.store := by
  cases o <;> rfl

@[simp] theorem cache_spawn? (s : System) (o : Option Stage) : (s.spawn? o).cache = s.cache := by
  cases o <;> rfl

@[simp] theorem fences_spawn? (s : System) (o : Option Stage) :
    (s.spawn? o).fences = s.fences := by
  cases o <;> rfl

@[simp] theorem now_spawn? (s : System) (o : Option Stage) : (s.spawn? o).now = s.now := by
  cases o <;> rfl

theorem nextTask_le_spawn? (s : System) (o : Option Stage) :
    s.nextTask ≤ (s.spawn? o).nextTask := by
  cases o with
  | none => exact Nat.le_refl _
  | some st => exact Nat.le_succ _

@[simp] theorem store_turn (s : System) (t : TaskId) (st : Stage) (r : Reply) :
    (s.turn w t st r).store = s.store := by
  simp [turn]

@[simp] theorem cache_turn (s : System) (t : TaskId) (st : Stage) (r : Reply) :
    (s.turn w t st r).cache = s.cache := by
  simp [turn]

@[simp] theorem fences_turn (s : System) (t : TaskId) (st : Stage) (r : Reply) :
    (s.turn w t st r).fences = (st.turn w s.fences r).fences := by
  simp [turn]

@[simp] theorem now_turn (s : System) (t : TaskId) (st : Stage) (r : Reply) :
    (s.turn w t st r).now = s.now := by
  simp [turn]

theorem tasks_turn (s : System) (t : TaskId) (st : Stage) (r : Reply) (u : TaskId) :
    (s.turn w t st r).tasks u =
      ((({ s with fences := (st.turn w s.fences r).fences }.setTask t
        (st.turn w s.fences r).next.process?).grant (st.turn w s.fences r).woken).spawn?
          (st.turn w s.fences r).spawned).tasks u := rfl

theorem process?_eq_some {n : Next} {p : Process} (h : n.process? = some p) :
    n = .stage p.stage ∧ p.standing = .ready := by
  cases n with
  | stage st =>
      cases h
      exact ⟨rfl, rfl⟩
  | finished r => simp [Next.process?] at h

/-- A task after a turn: the one that took the turn, one that was woken, one that was started, or
one that the turn has left alone. -/
theorem cases_turn {st : Stage} {r : Reply} {p : Process}
    (hw : (st.turn w s.fences r).woken ≠ some t)
    (h : (s.turn w t st r).tasks u = some p) :
    ((st.turn w s.fences r).spawned = some p.stage ∧ u = s.nextTask ∧ p.standing = .ready) ∨
      (u = t ∧ (st.turn w s.fences r).next = .stage p.stage ∧ p.standing = .ready) ∨
      (u ≠ t ∧ (st.turn w s.fences r).woken = some u ∧ p.standing = .replied .granted ∧
        ∃ sd, s.tasks u = some ⟨p.stage, sd⟩) ∨
      (u ≠ t ∧ (st.turn w s.fences r).woken ≠ some u ∧ s.tasks u = some p) := by
  rw [tasks_turn, tasks_spawn?] at h
  have hrest : ∀ h : (({ s with fences := (st.turn w s.fences r).fences }.setTask t
      (st.turn w s.fences r).next.process?).grant
        (st.turn w s.fences r).woken).tasks u = some p,
      (u = t ∧ (st.turn w s.fences r).next = .stage p.stage ∧ p.standing = .ready) ∨
        (u ≠ t ∧ (st.turn w s.fences r).woken = some u ∧ p.standing = .replied .granted ∧
          ∃ sd, s.tasks u = some ⟨p.stage, sd⟩) ∨
        (u ≠ t ∧ (st.turn w s.fences r).woken ≠ some u ∧ s.tasks u = some p) := by
    intro h
    rw [tasks_grant] at h
    by_cases hu : u = t
    · subst u
      rw [if_neg hw, tasks_setTask, if_pos rfl] at h
      exact Or.inl ⟨rfl, process?_eq_some h⟩
    · rw [tasks_setTask, if_neg hu] at h
      split at h
      · rename_i hwoken
        obtain ⟨p₀, hp₀, rfl⟩ := Option.map_eq_some_iff.mp h
        exact Or.inr (Or.inl ⟨hu, hwoken, rfl, p₀.standing, hp₀⟩)
      · rename_i hwoken
        exact Or.inr (Or.inr ⟨hu, hwoken, h⟩)
  split at h
  · rename_i hu
    cases hs : (st.turn w s.fences r).spawned with
    | none =>
        rw [hs] at h
        exact Or.inr (hrest h)
    | some st' =>
        rw [hs] at h
        cases h
        exact Or.inl ⟨rfl, by simpa using hu, rfl⟩
  · exact Or.inr (hrest h)

@[simp] theorem store_cancel (s : System) (t : TaskId) (p : Process) :
    (s.cancel t p).store = s.store := by
  simp only [cancel]
  split <;> simp

@[simp] theorem cache_cancel (s : System) (t : TaskId) (p : Process) :
    (s.cancel t p).cache = s.cache := by
  simp only [cancel]
  split <;> simp

@[simp] theorem now_cancel (s : System) (t : TaskId) (p : Process) :
    (s.cancel t p).now = s.now := by
  simp only [cancel]
  split <;> simp

theorem Step.nextTask_le (hs : Step w mint s es s') : s.nextTask ≤ s'.nextTask := by
  cases hs with
  | begin hj => exact Nat.le_succ _
  | reject e => exact Nat.le_succ _
  | turn ht =>
      refine Nat.le_trans (Nat.le_of_eq ?_) (nextTask_le_spawn? _ _)
      rw [nextTask_grant, nextTask_setTask]
  | cancel ht =>
      simp only [System.cancel]
      split
      · exact Nat.le_refl _
      · rw [nextTask_grant]
        exact Nat.le_refl _
  | _ => exact Nat.le_refl _

theorem Step.of_began {j : Job} (hs : Step w mint s es s') (h : .began t j ∈ es) :
    ∃ st, j.start w s.fences = .stage st ∧ t = s.nextTask ∧ es = [.began t j] ∧
      s' = s.spawn st := by
  cases hs with
  | begin hj =>
      cases List.mem_singleton.mp h
      exact ⟨_, hj, rfl, rfl, rfl⟩
  | turn ht => exact absurd h (Next.not_mem_turned (by simp) (by simp))
  | _ => simp at h

theorem Step.of_turned {st : Stage} {r : Reply} (hs : Step w mint s es s')
    (h : .turned t st r ∈ es) :
    s.tasks t = some ⟨st, .replied r⟩ ∧
      es = .turned t st r :: (st.turn w s.fences r).next.events t ∧ s' = s.turn w t st r := by
  cases hs with
  | @turn u st' r' ht =>
      rcases Next.of_mem_turned h with he | ⟨b, -, he⟩
      · cases he
        exact ⟨ht, rfl, rfl⟩
      · cases he
  | _ => simp at h

theorem Step.of_returned {a : StoreReply} (hs : Step w mint s es s') (h : .returned t a ∈ es) :
    ∃ st r, s.tasks t = some ⟨st, .replied r⟩ ∧ (st.turn w s.fences r).next = .finished a ∧
      es = [.turned t st r, .returned t a] ∧ s' = s.turn w t st r := by
  cases hs with
  | @turn u st r ht =>
      rcases Next.of_mem_turned h with he | ⟨b, hnext, he⟩
      · cases he
      · cases he
        exact ⟨st, r, ht, hnext, by rw [hnext]; rfl, rfl⟩
  | _ => simp at h

theorem Run.single (h : Step w mint s es s') : Run w mint s es s' := .step (.refl s) h

theorem Run.trans (h : Run w mint s es s') (h' : Run w mint s' es' s'') :
    Run w mint s (es ++ es') s'' := by
  induction h' with
  | refl => simpa using h
  | step _ hs ih =>
      rw [← List.append_assoc]
      exact .step ih hs

theorem Run.split {e : Event} {es₁ es₂ : List Event} (h : Run w mint s es s')
    (he : es = es₁ ++ e :: es₂) :
    ∃ l r es₃ es₄ s₁ s₂, es₁ = es₃ ++ l ∧ es₂ = r ++ es₄ ∧ Run w mint s es₃ s₁ ∧
      Step w mint s₁ (l ++ e :: r) s₂ ∧ Run w mint s₂ es₄ s' := by
  induction h generalizing es₂ with
  | refl => simp at he
  | @step s₁ s₂ es es' h hs ih =>
      rcases List.append_eq_append_iff.mp he with ⟨l, rfl, rfl⟩ | ⟨r, rfl, hr⟩
      · exact ⟨l, es₂, es, [], s₁, s₂, rfl, by simp, h, hs, .refl s₂⟩
      · cases r with
        | nil =>
            obtain rfl : e :: es₂ = es' := hr
            exact ⟨[], es₂, es₁, [], s₁, s₂, by simp, by simp, by simpa using h, hs, .refl s₂⟩
        | cons e' r =>
            obtain ⟨rfl, rfl⟩ := List.cons.inj hr
            obtain ⟨l, r', es₃, es₄, s₃, s₄, rfl, rfl, h₃, hs', h₄⟩ := ih rfl
            exact ⟨l, r', es₃, es₄ ++ es', s₃, s₄, rfl, by simp, h₃, hs', h₄.step hs⟩

theorem Run.split_began {j : Job} {es₁ es₂ : List Event} (h : Run w mint s es s')
    (he : es = es₁ ++ .began t j :: es₂) :
    ∃ s₁ st, Run w mint s es₁ s₁ ∧ j.start w s₁.fences = .stage st ∧ t = s₁.nextTask ∧
      Run w mint (s₁.spawn st) es₂ s' := by
  obtain ⟨l, r, es₃, es₄, s₁, s₂, rfl, rfl, h₃, hs, h₄⟩ := h.split he
  obtain ⟨st, hj, ht, hes, rfl⟩ := hs.of_began (t := t) (j := j) (by simp)
  obtain ⟨rfl, rfl⟩ : l = [] ∧ r = [] := by
    simpa [List.append_eq_cons_iff] using hes
  exact ⟨s₁, st, by simpa using h₃, hj, ht, h₄⟩

theorem Run.split_returned {a : StoreReply} {es₁ es₂ : List Event} (h : Run w mint s es s')
    (he : es = es₁ ++ .returned t a :: es₂) :
    ∃ e es₃ s₁ s₂, es₁ = es₃ ++ [e] ∧ Run w mint s es₃ s₁ ∧
      Step w mint s₁ [e, .returned t a] s₂ ∧ Run w mint s₂ es₂ s' := by
  obtain ⟨l, r, es₃, es₄, s₁, s₂, rfl, rfl, h₃, hs, h₄⟩ := h.split he
  obtain ⟨st, x, -, -, hes, -⟩ := hs.of_returned (t := t) (a := a) (by simp)
  obtain ⟨e, rfl, rfl⟩ : ∃ e, l = [e] ∧ r = [] := by
    cases l with
    | nil => cases hes
    | cons e l =>
        obtain ⟨-, hes⟩ := List.cons.inj hes
        cases l with
        | nil => exact ⟨e, rfl, (List.cons.inj hes).2⟩
        | cons e' l => simp at hes
  exact ⟨e, es₃, s₁, s₂, rfl, h₃, hs, h₄⟩

theorem Run.nextTask_le (h : Run w mint s es s') : s.nextTask ≤ s'.nextTask := by
  induction h with
  | refl => exact Nat.le_refl _
  | step h hx ih => exact Nat.le_trans ih hx.nextTask_le

theorem Run.inv (I : System → Prop) (hstep : ∀ {s es s'}, Step w mint s es s' → I s → I s')
    (h : Run w mint s es s') (hs : I s) : I s' := by
  induction h with
  | refl => exact hs
  | step _ hst ih => exact hstep hst ih

end System

end UserDirectory
