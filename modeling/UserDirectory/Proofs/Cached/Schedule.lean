import UserDirectory.Cached.Schedule
import UserDirectory.Proofs.Cached.Faultless

namespace UserDirectory.System

variable {w : Wiring} {mint : Mint} {s s' : System} {es : List Event} {t : TaskId}

theorem Step.of_start? {j : Job} (h : s.start? w j = some (es, s')) : Step w mint s es s' := by
  simp only [start?] at h
  split at h
  · rename_i st hst
    cases h
    exact .begin hst
  · cases h

theorem Step.of_advance? (h : s.advance? w mint t = some (es, s')) : Step w mint s es s' := by
  simp only [advance?] at h
  split at h
  · rename_i st ht
    split at h
    · rename_i q hq
      cases h
      exact .exchange ht hq
    · rename_i q hq
      cases h
      exact .serve ht hq
    · rename_i id hq
      cases h
      exact .ask ht hq
  · rename_i st r ht
    cases h
    exact .turn ht
  · cases h

theorem Step.of_move? {m : Move} (h : s.move? w mint m = some (es, s')) : Step w mint s es s' := by
  cases m with
  | start j => exact .of_start? h
  | advance t => exact .of_advance? h

theorem succeeds_of_move? {m : Move} (h : s.move? w mint m = some (es, s')) :
    ∀ e ∈ es, e.Succeeds s := by
  cases m with
  | start j =>
      simp only [move?, start?] at h
      split at h
      · cases h
        exact List.forall_mem_singleton.mpr trivial
      · cases h
  | advance t =>
      simp only [move?, advance?] at h
      split at h
      · split at h
        · cases h
          exact List.forall_mem_singleton.mpr rfl
        · cases h
          exact List.forall_mem_singleton.mpr trivial
        · cases h
          exact List.forall_mem_nil _
      · cases h
        exact succeeds_turned
      · cases h

theorem FaultlessRun.of_play? {ms : List Move} (h : s.play? w mint ms = some (es, s')) :
    FaultlessRun w mint s es s' := by
  induction ms generalizing s es with
  | nil =>
      cases h
      exact .refl _
  | cons m rest ih =>
      simp only [play?] at h
      split at h
      · rename_i es₁ s₁ hm
        split at h
        · rename_i es₂ s₂ hrest
          cases h
          exact (FaultlessRun.single (.of_move? hm) (succeeds_of_move? hm)).trans (ih hrest)
        · cases h
      · cases h

theorem FaultlessRun.of_any (w : Wiring) (mint : Mint) (s : System) (ms : List Move)
    (p : List Event × System → Bool) (h : (s.play? w mint ms).any p = true) :
    ∃ es s', FaultlessRun w mint s es s' ∧ p (es, s') = true := by
  obtain ⟨⟨es, s'⟩, hplay, hp⟩ := (Option.any_eq_true p _).mp h
  exact ⟨es, s', .of_play? hplay, hp⟩

theorem Run.of_any (w : Wiring) (mint : Mint) (s : System) (ms : List Move)
    (p : List Event × System → Bool) (h : (s.play? w mint ms).any p = true) :
    ∃ es s', Run w mint s es s' ∧ (∀ e ∈ es, ¬ e.IsFault) ∧ p (es, s') = true := by
  obtain ⟨es, s', hplay, hp⟩ := FaultlessRun.of_any w mint s ms p h
  exact ⟨es, s', hplay.run, hplay.not_isFault, hp⟩

theorem Step.of_fail? {e : CacheError} (h : s.fail? w t e = some (es, s')) :
    Step w mint s es s' := by
  simp only [fail?] at h
  split at h
  · rename_i st sd ht
    split at h
    · rename_i q hq
      cases h
      exact .fail ht hq
    · cases h
  · cases h

theorem Step.of_roughMove? {m : RoughMove} (h : s.roughMove? w mint m = some (es, s')) :
    Step w mint s es s' := by
  cases m with
  | move m => exact .of_move? h
  | fail t e => exact .of_fail? h
  | elapse ms =>
      cases h
      exact .elapse ms

theorem quiet_of_roughMove? {m : RoughMove} (h : s.roughMove? w mint m = some (es, s')) :
    ∀ key, .meddled key ∉ es := by
  intro key hk
  cases m with
  | move m => exact succeeds_of_move? h _ hk
  | fail t e =>
      simp only [roughMove?, fail?] at h
      split at h
      · split at h
        · cases h
          cases List.mem_singleton.mp hk
        · cases h
      · cases h
  | elapse ms =>
      cases h
      cases List.mem_singleton.mp hk

theorem Run.of_muddle? {ms : List RoughMove} (h : s.muddle? w mint ms = some (es, s')) :
    Run w mint s es s' ∧ ∀ key, .meddled key ∉ es := by
  induction ms generalizing s es with
  | nil =>
      cases h
      exact ⟨.refl _, by simp⟩
  | cons m rest ih =>
      simp only [muddle?] at h
      split at h
      · rename_i es₁ s₁ hm
        obtain ⟨⟨es₂, s₂⟩, hrest, heq⟩ := Option.map_eq_some_iff.mp h
        cases heq
        obtain ⟨hrun, hquiet⟩ := ih hrest
        refine ⟨(Run.single (.of_roughMove? hm)).trans hrun, ?_⟩
        intro key hk
        rcases List.mem_append.mp hk with hk | hk
        · exact quiet_of_roughMove? hm key hk
        · exact hquiet key hk
      · cases h

/-- A rough schedule that can be followed to an end of a certain kind is a course of steps to it
in which nobody else writes the cache. -/
theorem Run.of_any_rough (w : Wiring) (mint : Mint) (s : System) (ms : List RoughMove)
    (p : List Event × System → Bool) (h : (s.muddle? w mint ms).any p = true) :
    ∃ es s', Run w mint s es s' ∧ (∀ key, .meddled key ∉ es) ∧ p (es, s') = true := by
  obtain ⟨⟨es, s'⟩, hmuddle, hp⟩ := (Option.any_eq_true p _).mp h
  obtain ⟨hrun, hquiet⟩ := Run.of_muddle? hmuddle
  exact ⟨es, s', hrun, hquiet, hp⟩

end UserDirectory.System
