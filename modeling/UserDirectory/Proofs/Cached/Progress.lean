import UserDirectory.Proofs.Cached.Schedule
import UserDirectory.Proofs.Cached.Turns

namespace UserDirectory

/-- Whether an event may be seen while tasks go on and the cache does not answer. -/
def Event.IsUnaided : Event → Prop
  | .served _ _ _ | .turned _ _ _ | .returned _ _ => True
  | .exchanged _ _ r => r = .error .timeout
  | _ => False

theorem allowance_eq_zero {es : List Event} (h : ∀ e ∈ es, e.IsUnaided) : allowance es = 0 := by
  refine List.sum_eq_zero ?_
  intro n hn
  obtain ⟨e, he, rfl⟩ := List.mem_map.mp hn
  cases e with
  | began t j => exact (h _ he).elim
  | _ => rfl

theorem Stage.request_of_held? {w : Wiring} {st : Stage} {id : Uuid} (h : st.held? = some id) :
    ∃ q, st.request w = .cache q := by
  cases st with
  | writeEntry u p => exact ⟨_, rfl⟩
  | writeIndex u p => exact ⟨_, rfl⟩
  | dropEntry id emails a => exact ⟨_, rfl⟩
  | _ => cases h

namespace SplitSystem

/-- A task goes on without an answer of the cache: it has what it waited for, or gets it now. The
store answers, or the time allowed for the cache is over, or a fence is free. -/
inductive GoesOn (w : Wiring) (mint : Mint) (s : SplitSystem) (t : TaskId) :
    List Event → SplitSystem → Prop
  | replied {st : Stage} {r : Reply} {es : List Event} {s' : SplitSystem}
      (h : Step w mint s (.turned t st r :: es) s') : GoesOn w mint s t (.turned t st r :: es) s'
  | served {q : StoreRequest} {a : StoreReply} {st : Stage} {r : Reply} {es : List Event}
      {s₁ s' : SplitSystem} (h₁ : Step w mint s [.served t q a] s₁)
      (h₂ : Step w mint s₁ (.turned t st r :: es) s') :
      GoesOn w mint s t (.served t q a :: .turned t st r :: es) s'
  | timedOut {q : CacheRequest} {st : Stage} {r : Reply} {es : List Event} {s₁ s' : SplitSystem}
      (h₁ : Step w mint s [.exchanged t q (.error .timeout)] s₁)
      (h₂ : Step w mint s₁ (.turned t st r :: es) s') :
      GoesOn w mint s t (.exchanged t q (.error .timeout) :: .turned t st r :: es) s'
  | granted {st : Stage} {es : List Event} {s₁ s' : SplitSystem} (h₁ : Step w mint s [] s₁)
      (h₂ : Step w mint s₁ (.turned t st .granted :: es) s') :
      GoesOn w mint s t (.turned t st .granted :: es) s'

def CanGoOn (w : Wiring) (mint : Mint) (s : SplitSystem) (t : TaskId) : Prop :=
  ∃ es s', GoesOn w mint s t es s'

variable {w : Wiring} {mint : Mint} {s s' : SplitSystem} {es : List Event} {t u : TaskId}
  {p : Process} {st : Stage} {sd : Standing} {r : Reply} {id : Uuid} {g : Nat}

theorem Step.of_turned (hs : Step w mint s (.turned t st r :: es) s') :
    ∃ next : Next, es = next.events t := by
  cases hs with
  | within g hs => exact ⟨_, (List.cons.inj (hs.of_turned (List.mem_cons_self ..)).2.1).2⟩

theorem turned_unaided (hs : Step w mint s (.turned t st r :: es) s') :
    turns (.turned t st r :: es) = 1 ∧ ∀ e ∈ Event.turned t st r :: es, e.IsUnaided := by
  obtain ⟨next, rfl⟩ := hs.of_turned
  refine ⟨turns_turned t st r next, ?_⟩
  intro e he
  rcases Next.of_mem_turned he with rfl | ⟨a, -, rfl⟩
  · trivial
  · trivial

theorem GoesOn.run (h : GoesOn w mint s t es s') :
    Run w mint s es s' ∧ turns es = 1 ∧ ∀ e ∈ es, e.IsUnaided := by
  cases h with
  | replied h =>
      exact ⟨.single h, turned_unaided h⟩
  | served h₁ h₂ =>
      obtain ⟨hone, hunaided⟩ := turned_unaided h₂
      exact ⟨(Run.single h₁).step h₂, hone, List.forall_mem_cons.mpr ⟨trivial, hunaided⟩⟩
  | timedOut h₁ h₂ =>
      obtain ⟨hone, hunaided⟩ := turned_unaided h₂
      exact ⟨(Run.single h₁).step h₂, hone, List.forall_mem_cons.mpr ⟨rfl, hunaided⟩⟩
  | granted h₁ h₂ => exact ⟨(Run.single h₁).step h₂, turned_unaided h₂⟩

theorem canGoOn_of_replied (w : Wiring) (mint : Mint) (ht : s.tasks t = some ⟨st, .replied r⟩) :
    s.CanGoOn w mint t :=
  ⟨_, _, .replied (.within (s.copy t) (.turn ((tasks_own_part s t).trans ht)))⟩

namespace Orderly

variable (mint)

theorem canGoOn_of_cache (h : Orderly w s) (ht : s.tasks t = some ⟨st, sd⟩) {q : CacheRequest}
    (hq : st.request w = .cache q) : s.CanGoOn w mint t := by
  have hstep : System.Step w mint (s.part (s.copy t)) [.exchanged t q (.error .timeout)] _ :=
    .fail ((tasks_own_part s t).trans ht) hq
  obtain ⟨h₁, h₂⟩ := Step.twice h hstep (.turn (if_pos rfl))
  exact ⟨_, _, .timedOut h₁ h₂⟩

theorem canGoOn_of_store (h : Orderly w s) (ht : s.tasks t = some ⟨st, .ready⟩) {q : StoreRequest}
    (hq : st.request w = .store q) : s.CanGoOn w mint t := by
  have hstep : System.Step w mint (s.part (s.copy t)) _ _ :=
    .serve ((tasks_own_part s t).trans ht) hq
  obtain ⟨h₁, h₂⟩ := Step.twice h hstep (.turn (if_pos rfl))
  exact ⟨_, _, .served h₁ h₂⟩

theorem canGoOn_of_free (h : Orderly w s) (ht : s.tasks t = some ⟨st, .ready⟩)
    (hq : st.request w = .fence id)
    (hfree : ((s.fences (s.copy t)).fence id).holder = none) : s.CanGoOn w mint t := by
  have hstep : System.Step w mint (s.part (s.copy t)) _ _ :=
    .ask ((tasks_own_part s t).trans ht) hq
  have hgranted : ((s.part (s.copy t)).fences.acquire id t).1 = true := by
    simp only [Fences.acquire, SplitSystem.part, hfree]
  rw [hgranted, if_pos rfl] at hstep
  obtain ⟨h₁, h₂⟩ := Step.twice h hstep (.turn (if_pos rfl))
  exact ⟨_, _, .granted h₁ h₂⟩

theorem canGoOn_of_holder (h : Orderly w s)
    (hu : ((s.fences g).fence id).holder = some u) : s.CanGoOn w mint u := by
  have hheld : (s.part g).held? u = some id := ((h.part g).owned.holder id u).mp hu
  obtain ⟨⟨st, sd⟩, hp, hheld⟩ := Option.bind_eq_some_iff.mp hheld
  have ht := (tasks_of_part hp).2
  cases sd with
  | replied r => exact canGoOn_of_replied w mint ht
  | ready =>
      obtain ⟨q, hq⟩ := Stage.request_of_held? (w := w) hheld
      exact h.canGoOn_of_cache mint ht hq
  | queued =>
      obtain ⟨q, hq⟩ := Stage.request_of_held? (w := w) hheld
      exact h.canGoOn_of_cache mint ht hq

theorem awaited_of_waiting (h : Orderly w s) (ht : t ∈ ((s.fences g).fence id).waiting) :
    s.copy t = g ∧ (s.part g).awaited? t = some id := by
  have hwaits : (s.part g).awaited? t = some id := ((h.part g).owned.waiting id t).mp ht
  obtain ⟨p, hp, -⟩ := Option.bind_eq_some_iff.mp hwaits
  exact ⟨(tasks_of_part hp).1, hwaits⟩

theorem held_of_holder (h : Orderly w s) (ht : ((s.fences g).fence id).holder = some t) :
    s.copy t = g ∧ (s.part g).held? t = some id := by
  have hholds : (s.part g).held? t = some id := ((h.part g).owned.holder id t).mp ht
  obtain ⟨p, hp, -⟩ := Option.bind_eq_some_iff.mp hholds
  exact ⟨(tasks_of_part hp).1, hholds⟩

theorem onward (h : Orderly w s) (ht : s.tasks t = some p) :
    s.CanGoOn w mint t ∨ ∃ id u, p.stage.awaited? = some id ∧
      ((s.fences (s.copy t)).fence id).holder = some u ∧ u ≠ t ∧ s.CanGoOn w mint u := by
  have hpart := (tasks_own_part s t).trans ht
  have howned : (s.fences (s.copy t)).Owned (s.part (s.copy t)).held?
      (s.part (s.copy t)).awaited? := (h.part (s.copy t)).owned
  -- Who has come for a fence holds none, so that its holder is another task.
  have hbehind : ∀ {id u}, p.stage.awaited? = some id → p.held? = none →
      ((s.fences (s.copy t)).fence id).holder = some u →
      ∃ id u, p.stage.awaited? = some id ∧
        ((s.fences (s.copy t)).fence id).holder = some u ∧ u ≠ t ∧ s.CanGoOn w mint u := by
    intro id u ha hnone hu
    refine ⟨id, u, ha, hu, ?_, h.canGoOn_of_holder mint hu⟩
    rintro rfl
    have hholds := (howned.holder id u).mp hu
    rw [System.held?_of_tasks hpart, hnone] at hholds
    cases hholds
  obtain ⟨st, sd⟩ := p
  cases sd with
  | replied r => exact Or.inl (canGoOn_of_replied w mint ht)
  | queued =>
      obtain ⟨id, ha⟩ := Option.ne_none_iff_exists'.mp (h.queued t st ht)
      have hwaits : t ∈ ((s.fences (s.copy t)).fence id).waiting :=
        (howned.waiting id t).mpr ((System.awaited?_of_tasks hpart).trans ha)
      rcases hu : ((s.fences (s.copy t)).fence id).holder with _ | u
      · rw [howned.idle id hu] at hwaits
        cases hwaits
      · exact Or.inr (hbehind ha (Stage.held?_eq_none ha) hu)
  | ready =>
      rcases hq : st.request w with q | q | id
      · exact Or.inl (h.canGoOn_of_cache mint ht hq)
      · exact Or.inl (h.canGoOn_of_store mint ht hq)
      · have ha := Stage.request_eq_fence_iff.mp hq
        rcases hu : ((s.fences (s.copy t)).fence id).holder with _ | u
        · exact Or.inl (h.canGoOn_of_free mint ht hq hu)
        · exact Or.inr (hbehind ha (Stage.held?_eq_none ha) hu)

/-- All tasks can come to their ends without an answer of the cache. -/
theorem drains (h : Orderly w s) :
    ∃ es s', Run w mint s es s' ∧ (∀ t, s'.tasks t = none) ∧ ∀ e ∈ es, e.IsUnaided := by
  -- By induction on the turns that are left to all tasks: while one has not ended, some task can
  -- take a turn, and it leaves fewer.
  induction hn : s.load using Nat.strong_induction_on generalizing s with
  | _ n ih =>
      by_cases hdone : ∀ t, s.tasks t = none
      · exact ⟨[], s, .refl s, hdone, by simp⟩
      · obtain ⟨t, ht⟩ := not_forall.mp hdone
        obtain ⟨p, hp⟩ := Option.ne_none_iff_exists'.mp ht
        have hgo : ∃ u, s.CanGoOn w mint u := by
          rcases h.onward mint hp with hgo | ⟨id, u, -, -, -, hgo⟩
          · exact ⟨t, hgo⟩
          · exact ⟨u, hgo⟩
        obtain ⟨u, es, s₁, hu⟩ := hgo
        obtain ⟨hrun, hone, hunaided⟩ := hu.run
        have hless : s₁.load < n := by
          have hle := hrun.load_le h
          rw [hone, allowance_eq_zero hunaided, Nat.add_zero, hn] at hle
          exact hle
        obtain ⟨es', s', hrest, hended, hunaided'⟩ := ih _ hless (hrun.orderly h) rfl
        refine ⟨es ++ es', s', hrun.trans hrest, hended, ?_⟩
        exact List.forall_mem_append.mpr ⟨hunaided, hunaided'⟩

end Orderly

/-- Nobody waits for ever in a system that has come to `s` with what is seen in `es`. -/
structure Unblocked (w : Wiring) (mint : Mint) (es : List Event) (s : SplitSystem) : Prop where
  /-- A task that has not ended can go on without the cache, or it has come for a fence that
  another task holds which can. -/
  onward : ∀ t p, s.tasks t = some p → s.CanGoOn w mint t ∨ ∃ id u,
    p.stage.awaited? = some id ∧ ((s.fences (s.copy t)).fence id).holder = some u ∧ u ≠ t ∧
      s.CanGoOn w mint u
  /-- No task waits for a fence while it holds one. -/
  apart : ∀ t g id g' id', ((s.fences g).fence id).holder = some t →
    t ∉ ((s.fences g').fence id').waiting
  /-- A task that has ended has left all fences. -/
  ended : ∀ t, s.tasks t = none → ∀ g id,
    ((s.fences g).fence id).holder ≠ some t ∧ t ∉ ((s.fences g).fence id).waiting
  /-- A task that serves a job ends after so many turns, each of which ends one of its waits. -/
  calls : ∀ t j, .began t j ∈ es →
    turnsOf t es ≤ j.rank ∧ (s.tasks t ≠ none → turnsOf t es < j.rank)
  /-- Any other task is a write-back, and ends after three. -/
  writeBacks : ∀ t, (∀ j, .began t j ∉ es) →
    turnsOf t es ≤ 3 ∧ (s.tasks t ≠ none → turnsOf t es < 3)
  /-- The turns for a job include those of the write-backs that it leaves behind. -/
  total : turns es ≤ allowance es
  /-- All tasks can come to their ends without an answer of the cache. -/
  drains : ∃ es' s', Run w mint s es' s' ∧ (∀ t, s'.tasks t = none) ∧ ∀ e ∈ es', e.IsUnaided

/-- No task waits for ever, even if the cache never answers and fences are lost. -/
theorem never_blocked {d : Directory} {c : MemoryCache}
    (h : Run w mint { store := d, cache := c } es s) : Unblocked w mint es s := by
  have ho : Orderly w s := h.orderly (orderly_start w d c)
  have hb : Budget es s := h.budget
  constructor
  · exact fun t p => ho.onward mint
  · intro t g id g' id' hholder hwaiting
    obtain ⟨hg, hholds⟩ := ho.held_of_holder hholder
    obtain ⟨hg', hwaits⟩ := ho.awaited_of_waiting hwaiting
    rw [← hg] at hholds
    rw [← hg'] at hwaits
    rcases (ho.part (s.copy t)).owned.apart t with hnone | hnone
    · rw [hholds] at hnone
      cases hnone
    · rw [hwaits] at hnone
      cases hnone
  · intro t ht g id
    have hgone : (s.part g).tasks t = none := by
      rw [tasks_part, ht, ite_self]
    constructor
    · intro hholder
      have hholds := (ho.held_of_holder hholder).2
      rw [System.held?, hgone] at hholds
      cases hholds
    · intro hwaiting
      have hwaits := (ho.awaited_of_waiting hwaiting).2
      rw [System.awaited?, hgone] at hwaits
      cases hwaits
  · intro t j hj
    have hcall := hb.calls t j hj
    refine ⟨by omega, fun ht => ?_⟩
    have hpos := turnsLeft_pos ht
    omega
  · intro t hj
    have hback := hb.writeBacks t hj
    refine ⟨by omega, fun ht => ?_⟩
    have hpos := turnsLeft_pos ht
    omega
  · have hle := h.load_le (orderly_start w d c)
    have hstart : load { store := d, cache := c } = 0 := rfl
    omega
  · exact ho.drains mint

/-- A deletion waits for the fence of a write-back whose exchange with the cache hangs. -/
theorem never_blocked_of_hanging_write :
    let mint : Mint := fun n => .ofNat (n + 1)
    let u : User := { id := mint 1, versionId := mint 0, isLatestVersion := true }
    ∃ es s, Run (some {}) mint { store := {}, cache := { maxLifetime := 1000 } } es s ∧
      s.tasks 2 = some ⟨.writeEntry u none, .ready⟩ ∧
      s.tasks 3 = some ⟨.awaitDrop u.id [] .done, .queued⟩ ∧ Unblocked (some {}) mint es s := by
  intro mint u
  obtain ⟨es, x, hx, -, hend⟩ := System.Run.of_any (some {}) mint
    { store := {}, cache := { maxLifetime := 1000 } }
    ([.start (.request (.save {}))] ++ List.replicate 6 (.advance 0) ++
      [.start (.request (.get u.id))] ++ List.replicate 4 (.advance 1) ++
      List.replicate 2 (.advance 2) ++
      [.start (.request (.delete u.id))] ++ List.replicate 5 (.advance 3))
    (fun x => x.2.tasks 2 = some ⟨.writeEntry u none, .ready⟩ ∧
      x.2.tasks 3 = some ⟨.awaitDrop u.id [] .done, .queued⟩)
    (by decide +kernel)
  obtain ⟨hwrite, hdrop⟩ := of_decide_eq_true hend
  obtain ⟨s, h, hpart⟩ := Run.of_system hx
  have htask : ∀ {t p}, x.tasks t = some p → s.tasks t = some p := by
    intro t p hp
    rw [← hpart] at hp
    exact (tasks_of_part hp).2
  exact ⟨es, s, h, htask hwrite, htask hdrop, never_blocked h⟩

end SplitSystem

end UserDirectory
