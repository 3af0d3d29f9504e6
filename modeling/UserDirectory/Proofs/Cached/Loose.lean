import UserDirectory.Proofs.Cached.Coherence
import UserDirectory.Proofs.Directory.Versions

/-!
Systems that may lose their fences. Two tasks may then be under the fence of one user, and stamps
may be forgotten; the tasks still go from stage to stage as they do otherwise.
-/

namespace UserDirectory.System

/-- A step of a system that may lose its fences. They may be any when the step is taken, if only
tasks wait for the fence of a user that have asked for it; and such a task may get the fence at
any time, from one that had it before it was lost. -/
inductive LooseStep (w : Wiring) (mint : Mint) : System → List Event → System → Prop
  | step {s s' : System} {es : List Event} (f : Fences)
      (hf : ∀ id t, t ∈ (f.fence id).waiting → s.awaited? t = some id)
      (hs : Step w mint { s with fences := f } es s') : LooseStep w mint s es s'
  | grant {s : System} {t : TaskId} {st : Stage} (ht : s.tasks t = some ⟨st, .queued⟩)
      (ha : st.awaited? ≠ none) :
      LooseStep w mint s [] (s.setTask t (some ⟨st, .replied .granted⟩))

/-- A course of such steps, and what can be seen of them, earliest first. -/
inductive LooseRun (w : Wiring) (mint : Mint) : System → List Event → System → Prop
  | refl (s : System) : LooseRun w mint s [] s
  | step {s₀ s s' : System} {es es' : List Event} (h : LooseRun w mint s₀ es s)
      (hs : LooseStep w mint s es' s') : LooseRun w mint s₀ (es ++ es') s'

variable {w : Wiring} {mint : Mint} {s s' s'' : System} {es es' : List Event} {t : TaskId}
  {p : Process}

theorem LooseRun.trans (h : LooseRun w mint s es s') (h' : LooseRun w mint s' es' s'') :
    LooseRun w mint s (es ++ es') s'' := by
  induction h' with
  | refl => simpa using h
  | step _ hs ih =>
      rw [← List.append_assoc]
      exact ih.step hs

/-- Whether the tasks are tidy whatever the fences. -/
def Unfenced (w : Wiring) (s : System) : Prop := Tidy w { s with fences := {} }

theorem unfenced_start (w : Wiring) (d : Directory) (c : MemoryCache) :
    Unfenced w { store := d, cache := c } :=
  (orderly_start d c).tidy

theorem Unfenced.tidy (h : Unfenced w s) {f : Fences}
    (hf : ∀ id t, t ∈ (f.fence id).waiting → s.awaited? t = some id) :
    Tidy w { s with fences := f } :=
  ⟨h.fits, h.unused, hf⟩

theorem Unfenced.of_tasks (hfits : ∀ t p, s.tasks t = some p → p.Fits w)
    (hunused : ∀ t, s.nextTask ≤ t → s.tasks t = none) : Unfenced w s :=
  ⟨hfits, hunused, fun id t ht => by simp [Fences.fence] at ht⟩

theorem LooseStep.origin (hs : LooseStep w mint s es s') (h : Unfenced w s)
    (hp : s'.tasks t = some p) :
    ∃ f, Tidy w { s with fences := f } ∧ Origin w mint { s with fences := f } es s' t p := by
  cases hs with
  | step f hf hs => exact ⟨f, h.tidy hf, hs.origin (h.tidy hf) hp⟩
  | @grant u st hu ha =>
      refine ⟨{}, h, ?_⟩
      rw [tasks_setTask] at hp
      split at hp
      · rename_i ht
        cases hp
        exact .granted (ht ▸ hu) ha (by simp)
      · exact .same hp (by simp)

theorem Origin.fits (h : Origin w mint s es s' t p) (ho : Tidy w s) : p.Fits w := by
  cases h with
  | same ht => exact ho.fits _ _ ht
  | @granted st sd ht ha =>
      rintro r ⟨⟩
      obtain ⟨id, hid⟩ := Option.ne_none_iff_exists'.mp ha
      rw [Stage.request_eq_fence_iff.mpr hid]
      trivial
  | exchanged ht hq =>
      rintro r ⟨⟩
      exact Reply.fits_cache hq
  | failed ht hq =>
      rintro r ⟨⟩
      exact Reply.fits_cache hq
  | served ht hq =>
      rintro r ⟨⟩
      exact Reply.fits_store hq
  | refused ht hq =>
      rintro r ⟨⟩
      exact Reply.fits_store hq
  | _ => rintro r ⟨⟩

theorem tasks_grant_eq_none {o : Option TaskId} (h : s.tasks t = none) :
    (s.grant o).tasks t = none := by
  rw [tasks_grant, h]
  split <;> rfl

theorem tasks_spawn?_eq_none {o : Option Stage} (h : s.tasks t = none)
    (ht : (s.spawn? o).nextTask ≤ t) : (s.spawn? o).tasks t = none := by
  cases o with
  | none => exact h
  | some st => rw [spawn?, tasks_spawn, if_neg (Nat.ne_of_gt ht), h]

theorem Step.unused (hs : Step w mint s es s') (h : ∀ t, s.nextTask ≤ t → s.tasks t = none) :
    ∀ t, s'.nextTask ≤ t → s'.tasks t = none := by
  intro u hu
  have hnone : s.tasks u = none := h u (Nat.le_trans hs.nextTask_le hu)
  have hset : ∀ {t p o}, s.tasks t = some p → (s.setTask t o).tasks u = none := by
    intro t p o ht
    rw [tasks_setTask, if_neg, hnone]
    rintro rfl
    rw [hnone] at ht
    cases ht
  cases hs with
  | begin hj => rw [tasks_spawn, if_neg (Nat.ne_of_gt hu), hnone]
  | exchange ht hq => exact hset ht
  | fail ht hq => exact hset ht
  | serve ht hq => exact hset ht
  | refuse ht hq he => exact hset ht
  | ask ht hq => exact hset ht
  | turn ht => exact tasks_spawn?_eq_none (tasks_grant_eq_none (hset ht)) hu
  | @cancel t p ht =>
      simp only [System.cancel]
      split
      · exact hset ht
      · exact tasks_grant_eq_none (hset ht)
  | _ => exact hnone

theorem LooseStep.nextTask_le (hs : LooseStep w mint s es s') : s.nextTask ≤ s'.nextTask := by
  cases hs with
  | step f hf hs => exact hs.nextTask_le
  | grant ht => exact Nat.le_refl _

theorem LooseStep.unfenced (hs : LooseStep w mint s es s') (h : Unfenced w s) :
    Unfenced w s' := by
  refine .of_tasks ?_ ?_
  · intro t p hp
    obtain ⟨f, ho, horigin⟩ := hs.origin h hp
    exact horigin.fits ho
  · cases hs with
    | step f hf hs => exact hs.unused h.unused
    | @grant t st ht ha =>
        intro u hu
        have hnone : s.tasks u = none := h.unused u hu
        rw [tasks_setTask, if_neg, hnone]
        rintro rfl
        rw [hnone] at ht
        cases ht

theorem LooseStep.extends_store (hs : LooseStep w mint s es s') (hd : s.store.Sound mint)
    (hm : mint.Fresh s'.store.drawn) : s'.store.Sound mint ∧ s.store.Extends s'.store := by
  cases hs with
  | step f hf hs => exact hs.extends_store hd hm
  | grant ht => exact ⟨hd, .refl _⟩

theorem LooseStep.drawn_le (hs : LooseStep w mint s es s') :
    s.store.drawn ≤ s'.store.drawn := by
  cases hs with
  | step f hf hs => exact hs.drawn_le
  | grant ht => exact Nat.le_refl _

theorem LooseRun.drawn_le (h : LooseRun w mint s es s') : s.store.drawn ≤ s'.store.drawn := by
  induction h with
  | refl => exact Nat.le_refl _
  | step h hx ih => exact Nat.le_trans ih hx.drawn_le

theorem LooseRun.extends_store (h : LooseRun w mint s es s') (hd : s.store.Sound mint)
    (hm : mint.Fresh s'.store.drawn) : s'.store.Sound mint ∧ s.store.Extends s'.store := by
  induction h with
  | refl => exact ⟨hd, .refl _⟩
  | step h hx ih =>
      obtain ⟨hsound, he⟩ := ih (hm.mono hx.drawn_le)
      obtain ⟨hsound', he'⟩ := hx.extends_store hsound hm
      exact ⟨hsound', he.trans he'⟩

end UserDirectory.System
