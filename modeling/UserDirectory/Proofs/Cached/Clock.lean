import UserDirectory.Proofs.Cached.Exclusion

namespace UserDirectory

/-- Whether an invalidation of a user takes its tick. -/
def Event.Ticks (id : Uuid) : Event → Prop
  | .turned _ (.awaitDrop id' _ _) _ => id' = id
  | _ => False

namespace System

variable {w : Wiring} {mint : Mint} {s s' s₁ : System} {es es' : List Event} {id : Uuid}

/-- A step takes no tick and leaves all stamps as they are, or it is the tick of one
invalidation. -/
theorem Step.tick_or_not (hs : Step w mint s es s') (h : Orderly w s) :
    (s'.fences.clock = s.fences.clock ∧
        (∀ id, (s'.fences.fence id).stamp = (s.fences.fence id).stamp) ∧
        ∀ e ∈ es, ∀ id, ¬ e.Ticks id) ∨
      ∃ t id emails a, s.tasks t = some ⟨.awaitDrop id emails a, .replied .granted⟩ ∧
        es = [.turned t (.awaitDrop id emails a) .granted] ∧
        s'.fences = s.fences.stamp id := by
  cases hs with
  | @turn t st r ht =>
      have hr := h.fits t _ ht r rfl
      -- The clock ticks only when an invalidation goes on from its wait for the fence.
      by_cases hst : ∃ id emails a, st = .awaitDrop id emails a
      · obtain ⟨id, emails, a, rfl⟩ := hst
        obtain rfl := hr.granted
        exact Or.inr ⟨t, id, emails, a, ht, rfl, fences_turn s t _ _⟩
      · refine Or.inl ?_
        have hevents : ∀ e ∈ Event.turned t st r :: (st.turn w s.fences r).next.events t,
            ∀ id, ¬ e.Ticks id := by
          intro e he id htick
          rcases Next.of_mem_turned he with rfl | ⟨a, -, rfl⟩
          · cases st <;> cases htick
            exact hst ⟨_, _, _, rfl⟩
          · cases htick
        rcases turn_keeps_or_leaves st hr (f := s.fences) with hk | ⟨id, -, hl⟩
        · rcases hk.fences with hf | ⟨id, emails, a, rfl, -⟩
          · rw [fences_turn, hf]
            exact ⟨rfl, fun _ => rfl, hevents⟩
          · exact absurd ⟨id, emails, a, rfl⟩ hst
        · rw [fences_turn, hl.fences]
          exact ⟨Fences.clock_release _ _, Fences.stamp_release _ _, hevents⟩
  | ask ht hq =>
      exact Or.inl ⟨Fences.clock_acquire _ _ _, fun id => Fences.stamp_acquire _ _ id _, by simp⟩
  | @cancel t p ht =>
      refine Or.inl ⟨?_, ?_, by simp [Event.Ticks]⟩
      · simp only [System.cancel]
        split
        · rfl
        · rw [fences_grant, Fences.clock_abandon]
          rfl
      · intro id
        simp only [System.cancel]
        split
        · rfl
        · rw [fences_grant, Fences.stamp_abandon]
          rfl
  | begin hj => exact Or.inl ⟨rfl, fun _ => rfl, by simp [Event.Ticks]⟩
  | reject e => exact Or.inl ⟨rfl, fun _ => rfl, by simp [Event.Ticks]⟩
  | exchange ht hq => exact Or.inl ⟨rfl, fun _ => rfl, by simp [Event.Ticks]⟩
  | fail ht hq => exact Or.inl ⟨rfl, fun _ => rfl, by simp [Event.Ticks]⟩
  | serve ht hq => exact Or.inl ⟨rfl, fun _ => rfl, by simp [Event.Ticks]⟩
  | refuse ht hq he => exact Or.inl ⟨rfl, fun _ => rfl, by simp [Event.Ticks]⟩
  | evict key => exact Or.inl ⟨rfl, fun _ => rfl, by simp [Event.Ticks]⟩
  | meddle key bytes lifetime => exact Or.inl ⟨rfl, fun _ => rfl, by simp [Event.Ticks]⟩
  | elapse ms => exact Or.inl ⟨rfl, fun _ => rfl, by simp [Event.Ticks]⟩

theorem Step.clock_le (hs : Step w mint s es s') (h : Orderly w s) :
    s.fences.clock ≤ s'.fences.clock ∧ s'.fences.clock ≤ s.fences.clock + 1 := by
  rcases hs.tick_or_not h with ⟨hc, -⟩ | ⟨t, id, emails, a, -, -, hf⟩
  · rw [hc]
    exact ⟨Nat.le_refl _, Nat.le_succ _⟩
  · rw [hf, Fences.clock_stamp]
    exact ⟨Nat.le_succ _, Nat.le_refl _⟩

theorem Step.stamp_le (hs : Step w mint s es s') (h : Orderly w s) (id : Uuid) :
    (s.fences.fence id).stamp ≤ (s'.fences.fence id).stamp := by
  rcases hs.tick_or_not h with ⟨-, hst, -⟩ | ⟨t, id', emails, a, -, -, hf⟩
  · exact Nat.le_of_eq (hst id).symm
  · rw [hf, Fences.stamp_stamp]
    split
    · exact Nat.le_succ_of_le (h.stamps id)
    · exact Nat.le_refl _

theorem Run.orderly_of (h : Run w mint s es s') (hs : Orderly w s) : Orderly w s' :=
  h.inv (Orderly w) Step.orderly hs

theorem Run.clock_le (h : Run w mint s es s') (hs : Orderly w s) :
    s.fences.clock ≤ s'.fences.clock := by
  induction h with
  | refl => exact Nat.le_refl _
  | step h hst ih => exact Nat.le_trans ih (hst.clock_le (h.orderly_of hs)).1

theorem Run.stamp_le (h : Run w mint s es s') (hs : Orderly w s) (id : Uuid) :
    (s.fences.fence id).stamp ≤ (s'.fences.fence id).stamp := by
  induction h with
  | refl => exact Nat.le_refl _
  | step h hst ih => exact Nat.le_trans ih (hst.stamp_le (h.orderly_of hs) id)

end System

end UserDirectory
