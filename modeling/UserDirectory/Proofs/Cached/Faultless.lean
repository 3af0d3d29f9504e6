import UserDirectory.Proofs.Cached.System

namespace UserDirectory

/-- Whether what is seen of a step from a system is no fault. The cache may not have what it is
asked for, but then it says so because it does not. -/
def Event.Succeeds (s : System) : Event → Prop
  | .exchanged _ q r => r = (s.cache.serve s.now q).1
  | .refused _ _ _ | .cancelled _ | .evicted _ | .meddled _ => False
  | _ => True

theorem Event.Succeeds.not_isFault {s : System} {e : Event} (h : e.Succeeds s) : ¬ e.IsFault := by
  cases e with
  | exchanged t q r =>
      obtain rfl : r = (s.cache.serve s.now q).1 := h
      cases q with
      | get key =>
          simp only [MemoryCache.serve]
          cases s.cache.get? s.now key with
          | none => exact fun hf => hf rfl
          | some bs => exact fun hf => hf
      | set key bytes lifetime => exact fun hf => hf
      | remove key => exact fun hf => hf
  | refused t q e => exact h.elim
  | cancelled t => exact h.elim
  | evicted key => exact h.elim
  | meddled key => exact h.elim
  | _ => exact fun hf => hf

namespace System

/-- A course of steps in which nothing fails. -/
inductive FaultlessRun (w : Wiring) (mint : Mint) : System → List Event → System → Prop
  | refl (s : System) : FaultlessRun w mint s [] s
  | step {s₀ s s' : System} {es es' : List Event} (h : FaultlessRun w mint s₀ es s)
      (hs : Step w mint s es' s') (hes : ∀ e ∈ es', e.Succeeds s) :
      FaultlessRun w mint s₀ (es ++ es') s'

variable {w : Wiring} {mint : Mint} {s s' s'' : System} {es es' : List Event} {t : TaskId}

theorem succeeds_turned {st : Stage} {r : Reply} {n : Next} :
    ∀ e ∈ Event.turned t st r :: n.events t, e.Succeeds s := by
  intro e he
  rcases Next.of_mem_turned he with rfl | ⟨a, -, rfl⟩
  · trivial
  · trivial

namespace FaultlessRun

theorem single (hs : Step w mint s es s') (hes : ∀ e ∈ es, e.Succeeds s) :
    FaultlessRun w mint s es s' :=
  .step (.refl s) hs hes

theorem trans (h : FaultlessRun w mint s es s') (h' : FaultlessRun w mint s' es' s'') :
    FaultlessRun w mint s (es ++ es') s'' := by
  induction h' with
  | refl => simpa using h
  | step _ hs hes ih =>
      rw [← List.append_assoc]
      exact .step ih hs hes

theorem run (h : FaultlessRun w mint s es s') : Run w mint s es s' := by
  induction h with
  | refl => exact .refl _
  | step _ hs _ ih => exact .step ih hs

theorem not_isFault (h : FaultlessRun w mint s es s') : ∀ e ∈ es, ¬ e.IsFault := by
  induction h with
  | refl => simp
  | step _ _ hes ih => exact List.forall_mem_append.mpr ⟨ih, fun e he => (hes e he).not_isFault⟩

theorem of_began {j : Job} (h : FaultlessRun w mint s (.began t j :: es) s') :
    ∃ s₁ st, FaultlessRun w mint s [] s₁ ∧ j.start w s₁.fences = .stage st ∧ t = s₁.nextTask ∧
      FaultlessRun w mint (s₁.spawn st) es s' := by
  generalize hes : Event.began t j :: es = es₀ at h
  induction h generalizing es with
  | refl => cases hes
  | @step s₁ s₂ es₁ es₂ h₁ hs hsucc ih =>
      cases es₁ with
      | nil =>
          obtain ⟨st, hj, ht, heq, rfl⟩ := hs.of_began (t := t) (j := j)
            (List.mem_of_mem_head? (congrArg List.head? hes).symm)
          obtain rfl : es = [] := (List.cons.inj (hes.trans heq)).2
          exact ⟨s₁, st, h₁, hj, ht, .refl _⟩
      | cons e es₁ =>
          obtain ⟨rfl, rfl⟩ := List.cons.inj hes
          obtain ⟨s₃, st, h₃, hj, ht, h₄⟩ := ih rfl
          exact ⟨s₃, st, h₃, hj, ht, h₄.step hs hsucc⟩

end FaultlessRun

end System

end UserDirectory
