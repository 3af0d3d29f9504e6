import UserDirectory.Cached.Split
import UserDirectory.Proofs.Cached.Clock
import UserDirectory.Proofs.Cached.Origin

/-!
Systems that may lose fences, part by part. A step takes place within one part, and the others only
see the store, the cache and the clock change; so every part stays orderly, and a task has to do
with the fences of its own part only.
-/

namespace UserDirectory

namespace System

variable {w : Wiring} {mint : Mint} {s s' : System} {es : List Event} {t : TaskId}

theorem Orderly.elsewhere (h : Orderly w s) (d : Directory) (c : MemoryCache) (now : Nat)
    {clock : Nat} {nextTask : TaskId} (hclock : s.fences.clock ≤ clock)
    (hnext : s.nextTask ≤ nextTask) :
    Orderly w { s with
      store := d, cache := c, now, nextTask, fences := { s.fences with clock } } where
  owned := ⟨h.owned.holder, h.owned.waiting, h.owned.nodup, h.owned.idle, h.owned.apart⟩
  fits := h.fits
  unused t ht := h.unused t (Nat.le_trans hnext ht)
  stamps id := Nat.le_trans (h.stamps id) hclock
  readings t p hp := (h.readings t p hp).mono hclock

theorem Orderly.setTask (h : Orderly w s) (ht : t < s.nextTask) (hheld : s.held? t = none)
    (hawaited : s.awaited? t = none) (o : Option Process)
    (ho : ∀ p ∈ o, p.held? = none ∧ p.awaited? = none ∧ p.Fits w ∧
      p.stage.Before s.fences.clock) : Orderly w (s.setTask t o) := by
  have htasks : ∀ {u p}, (s.setTask t o).tasks u = some p → p ∈ o ∨ s.tasks u = some p := by
    intro u p hp
    rw [tasks_setTask] at hp
    split at hp
    · exact Or.inl hp
    · exact Or.inr hp
  have hholds : (s.setTask t o).held? = s.held? := by
    rw [← set_eq_self (g := s.held?) hheld]
    funext u
    simp only [held?, tasks_setTask]
    split
    · exact Option.bind_eq_none_iff.mpr fun p hp => (ho p hp).1
    · rfl
  have hwaits : (s.setTask t o).awaited? = s.awaited? := by
    rw [← set_eq_self (g := s.awaited?) hawaited]
    funext u
    simp only [awaited?, tasks_setTask]
    split
    · exact Option.bind_eq_none_iff.mpr fun p hp => (ho p hp).2.1
    · rfl
  constructor
  · rw [hholds, hwaits]
    exact h.owned
  · intro u p hp
    rcases htasks hp with hp | hp
    · exact (ho p hp).2.2.1
    · exact h.fits u p hp
  · intro u hu
    have hne : u ≠ t := Nat.ne_of_gt (Nat.lt_of_lt_of_le ht hu)
    rw [tasks_setTask, if_neg hne]
    exact h.unused u hu
  · exact h.stamps
  · intro u p hp
    rcases htasks hp with hp | hp
    · exact (ho p hp).2.2.2
    · exact h.readings u p hp

theorem Step.tasks_eq_none (hs : Step w mint s es s') (h : Tidy w s) (ht : t < s.nextTask)
    (hnone : s.tasks t = none) : s'.tasks t = none := by
  rcases hp : s'.tasks t with _ | p
  · rfl
  · exact absurd ((hs.origin h hp).eq_nextTask hnone) (Nat.ne_of_lt ht)

end System

namespace SplitSystem

variable {w : Wiring} {mint : Mint} {s s' s'' : SplitSystem} {x x' : System} {es es' : List Event}
  {g i : Nat} {t : TaskId} {p : Process}

theorem tasks_part (s : SplitSystem) (g : Nat) (t : TaskId) :
    (s.part g).tasks t = if s.copy t = g then s.tasks t else none := rfl

theorem tasks_own_part (s : SplitSystem) (t : TaskId) :
    (s.part (s.copy t)).tasks t = s.tasks t := if_pos rfl

theorem tasks_of_part (h : (s.part g).tasks t = some p) : s.copy t = g ∧ s.tasks t = some p := by
  rw [tasks_part] at h
  split at h
  · rename_i hg
    exact ⟨hg, h⟩
  · cases h

/-- Every part is orderly, and only tasks that have come for a fence wait for one. -/
structure Orderly (w : Wiring) (s : SplitSystem) : Prop where
  part : ∀ g, System.Orderly w (s.part g)
  queued : ∀ t st, s.tasks t = some ⟨st, .queued⟩ → st.awaited? ≠ none

theorem orderly_start (w : Wiring) (d : Directory) (c : MemoryCache) :
    Orderly w { store := d, cache := c } where
  part g := by
    have hstart : System.Orderly w { store := d, cache := c } := System.orderly_start d c
    simpa only [SplitSystem.part, fences, ite_self] using hstart
  queued t st h := by cases h

theorem Orderly.unused (h : Orderly w s) (ht : s.nextTask ≤ t) : s.tasks t = none := by
  rw [← tasks_own_part]
  exact (h.part (s.copy t)).unused t ht

theorem Orderly.lt_nextTask (h : Orderly w s) (ht : s.tasks t = some p) : t < s.nextTask :=
  (h.part (s.copy t)).lt_nextTask ((tasks_own_part s t).trans ht)

theorem part_put_self (h : Orderly w s) (hs : System.Step w mint (s.part g) es x) :
    (s.put g x).part g = x := by
  have htasks : ((s.put g x).part g).tasks = x.tasks := by
    funext t
    rw [tasks_part]
    simp only [put]
    by_cases ht : s.nextTask ≤ t
    · simp [ht]
    · by_cases hg : s.copy t = g
      · simp [ht, hg]
      · have hnone : x.tasks t = none := by
          refine hs.tasks_eq_none (h.part g).tidy (Nat.lt_of_not_le ht) ?_
          rw [tasks_part, if_neg hg]
        simp [ht, hg, hnone]
  obtain ⟨d, c, ⟨clock, used⟩, now, tasks, nextTask⟩ := x
  simp only [SplitSystem.part, fences, put, if_true] at htasks ⊢
  rw [htasks]

theorem part_put_of_ne (h : Orderly w s) (hi : i ≠ g) :
    (s.put g x).part i = { s.part i with
      store := x.store, cache := x.cache, now := x.now, nextTask := x.nextTask
      fences := { s.fences i with clock := x.fences.clock } } := by
  have htasks : ((s.put g x).part i).tasks = (s.part i).tasks := by
    funext t
    rw [tasks_part, tasks_part]
    simp only [put]
    by_cases ht : s.nextTask ≤ t
    · simp [ht, Ne.symm hi, h.unused ht]
    · by_cases hc : s.copy t = i
      · simp [ht, hc, hi]
      · simp [ht, hc]
  simp only [SplitSystem.part, fences, put, if_neg hi] at htasks ⊢
  rw [htasks]

theorem part_move (s : SplitSystem) (g i : Nat) (t : TaskId) :
    SplitSystem.part { s with copy := fun u => if u = t then g else s.copy u } i =
      (s.part i).setTask t (if g = i then s.tasks t else none) := by
  simp only [SplitSystem.part, System.setTask, fences, System.mk.injEq, true_and, and_true]
  funext u
  by_cases hu : u = t
  · subst u
    simp
  · simp [hu]

theorem Step.orderly (hs : Step w mint s es s') (h : Orderly w s) : Orderly w s' := by
  cases hs with
  | @within es x g hs =>
      constructor
      · intro i
        by_cases hi : i = g
        · rw [hi, part_put_self h hs]
          exact hs.orderly (h.part g)
        · rw [part_put_of_ne h hi]
          exact (h.part i).elsewhere x.store x.cache x.now (hs.clock_le (h.part g)).1
            hs.nextTask_le
      · intro t st ht
        simp only [put] at ht
        split at ht
        · cases hs.origin (h.part g).tidy ht with
          | same ht => exact h.queued t st (tasks_of_part ht).2
          | queued ht ha => exact ha
        · exact h.queued t st ht
  | @move t st id g ht hq =>
      have ha := Stage.request_eq_fence_iff.mp hq
      have hbefore : st.Before s.clock :=
        (h.part (s.copy t)).readings t ⟨st, .ready⟩ (by rw [tasks_own_part, ht])
      have hfree : ∀ i, (s.part i).held? t = none ∧ (s.part i).awaited? t = none := by
        intro i
        simp only [System.held?, System.awaited?, tasks_part]
        split
        · rw [ht]
          exact ⟨Stage.held?_eq_none ha, rfl⟩
        · exact ⟨rfl, rfl⟩
      constructor
      · intro i
        rw [part_move]
        refine (h.part i).setTask (h.lt_nextTask ht) (hfree i).1 (hfree i).2 _ ?_
        intro p hp
        split at hp
        · rw [ht] at hp
          cases hp
          exact ⟨Stage.held?_eq_none ha, rfl, by rintro r ⟨⟩, hbefore⟩
        · cases hp
      · exact fun u st hu => h.queued u st hu

theorem Run.orderly (h : Run w mint s es s') (hs : Orderly w s) : Orderly w s' := by
  induction h with
  | refl => exact hs
  | step _ hs ih => exact hs.orderly ih

theorem Run.single (h : Step w mint s es s') : Run w mint s es s' := .step (.refl s) h

theorem Run.trans (h : Run w mint s es s') (h' : Run w mint s' es' s'') :
    Run w mint s (es ++ es') s'' := by
  induction h' with
  | refl => simpa using h
  | step _ hs ih =>
      rw [← List.append_assoc]
      exact .step ih hs

/-- What happens in a system that keeps its fences can happen in one that may lose them. -/
theorem Run.of_system {d : Directory} {c : MemoryCache}
    (h : System.Run w mint { store := d, cache := c } es x) :
    ∃ s, Run w mint { store := d, cache := c } es s ∧ s.part 0 = x := by
  induction h with
  | refl => exact ⟨_, .refl _, rfl⟩
  | step _ hs ih =>
      obtain ⟨s, hrun, rfl⟩ := ih
      have ho := hrun.orderly (orderly_start w d c)
      exact ⟨_, hrun.step (.within 0 hs), part_put_self ho hs⟩

theorem Step.twice (h : Orderly w s) (hs : System.Step w mint (s.part g) es x)
    (hs' : System.Step w mint x es' x') :
    Step w mint s es (s.put g x) ∧ Step w mint (s.put g x) es' ((s.put g x).put g x') := by
  refine ⟨.within g hs, .within g ?_⟩
  rw [part_put_self h hs]
  exact hs'

end SplitSystem

end UserDirectory
