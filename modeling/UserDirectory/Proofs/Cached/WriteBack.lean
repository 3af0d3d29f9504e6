import UserDirectory.Proofs.Cached.Origin
import UserDirectory.Proofs.Directory

/-!
What write-backs carry. A guard says which users may wait to be written and which may be written;
a step keeps to it if what waits is let through only when it may be written, and if what the store
shows at present may always wait.
-/

namespace UserDirectory

/-- Which users may wait for their fence since a reading of the clock, and which may be written. -/
structure Guard where
  pending : User → Nat → Prop
  writing : User → Prop

def Stage.Obeys (g : Guard) : Stage → Prop
  | .awaitWrite u n _ => g.pending u n
  | .writeEntry u _ | .writeIndex u _ => g.writing u
  | _ => True

/-- Whether a task keeps to a guard, also with what it has just read from the store. -/
def Process.Obeys (g : Guard) (p : Process) : Prop :=
  p.stage.Obeys g ∧
    match p.stage, p.standing with
    | .fetch _ n _, .replied (.store (.ok (.user u))) => g.pending u n
    | .fetchByEmail _ n, .replied (.store (.ok (.user u))) => g.pending u n
    | _, _ => True

/-- Whether a stage is one of a write-back that goes on as a task of its own. -/
def Stage.IsWriteBack : Stage → Prop
  | .awaitWrite _ _ none | .writeEntry _ none | .writeIndex _ none => True
  | _ => False

variable {w : Wiring} {mint : Mint} {f : Fences} {g g' g'' : Guard} {st st' : Stage} {sd : Standing}
  {r : Reply}

theorem Stage.Obeys.and (h : st.Obeys g) (h' : st.Obeys g')
    (hp : ∀ u n, g.pending u n → g'.pending u n → g''.pending u n)
    (hw : ∀ u, g.writing u → g'.writing u → g''.writing u) : st.Obeys g'' := by
  cases st with
  | awaitWrite u n p => exact hp u n h h'
  | writeEntry u p => exact hw u h h'
  | writeIndex u p => exact hw u h h'
  | _ => trivial

theorem Stage.Obeys.mono (h : st.Obeys g) (hp : ∀ u n, g.pending u n → g'.pending u n)
    (hw : ∀ u, g.writing u → g'.writing u) : st.Obeys g' :=
  h.and h (fun u n hn _ => hp u n hn) fun u hu _ => hw u hu

theorem Process.Obeys.and {p : Process} (h : p.Obeys g) (h' : p.Obeys g')
    (hp : ∀ u n, g.pending u n → g'.pending u n → g''.pending u n)
    (hw : ∀ u, g.writing u → g'.writing u → g''.writing u) : p.Obeys g'' := by
  refine ⟨h.1.and h'.1 hp hw, ?_⟩
  obtain ⟨st, sd⟩ := p
  have h₂ := h.2
  have h₂' := h'.2
  split at h₂
  · rename_i hst hsd
    cases hst
    cases hsd
    exact hp _ _ h₂ h₂'
  · rename_i hst hsd
    cases hst
    cases hsd
    exact hp _ _ h₂ h₂'
  · trivial

theorem Process.Obeys.mono {p : Process} (h : p.Obeys g)
    (hp : ∀ u n, g.pending u n → g'.pending u n) (hw : ∀ u, g.writing u → g'.writing u) :
    p.Obeys g' :=
  h.and h (fun u n hn _ => hp u n hn) fun u hu _ => hw u hu

theorem Stage.Obeys.process (h : st.Obeys g) (hsd : ∀ r, sd ≠ .replied (.store r)) :
    Process.Obeys g ⟨st, sd⟩ := by
  refine ⟨h, ?_⟩
  split
  · rename_i hst
    exact absurd hst (hsd _)
  · rename_i hst
    exact absurd hst (hsd _)
  · trivial

theorem Purpose.Continues.obeys {u : User} {p : Purpose} (h : p.Continues w u st) :
    st.Obeys g := by
  cases h <;> trivial

theorem Stage.Successor.obeys (h : st.Successor w f r st')
    (hp : Process.Obeys g ⟨st, .replied r⟩)
    (hpass : ∀ u n, g.pending u n → ¬ n < (f.fence u.id).stamp → g.writing u) : st'.Obeys g := by
  cases h with
  | hit hu h => exact h.obeys
  | populating => exact hp.2
  | fetched h => exact h.obeys
  | found => exact hp.2
  | admitted hn => exact hpass _ _ hp.1 hn
  | skipped hn h => exact h.obeys
  | entryWritten he => exact hp.1
  | written h => exact h.obeys
  | indexWritten h => exact h.obeys
  | _ => trivial

theorem Stage.Spawns.obeys {u : User} {n : Nat} (h : st.Spawns r u n)
    (hp : Process.Obeys g ⟨st, .replied r⟩) : g.pending u n := by
  cases h with
  | fetched => exact hp.2
  | found => exact hp.2

theorem Job.Starts.obeys {j : Job} (h : j.Starts w f st) : st.Obeys g := by
  cases h <;> trivial

theorem Stage.Successor.isWriteBack (h : st.Successor w f r st') (hst : st.IsWriteBack) :
    st'.IsWriteBack := by
  cases h with
  | @admitted u n p? hn =>
      cases p? with
      | none => trivial
      | some p => exact hst.elim
  | @entryWritten u p? a he =>
      cases p? with
      | none => trivial
      | some p => exact hst.elim
  | _ => exact hst.elim

theorem Stage.IsWriteBack.request_ne {q : StoreRequest} (h : st.IsWriteBack) :
    st.request w ≠ .store q := by
  cases st <;> first | exact h.elim | exact Request.noConfusion

namespace System

variable {s s' : System} {es : List Event}

def Obeys (g : Guard) (s : System) : Prop := ∀ t p, s.tasks t = some p → p.Obeys g

/-- A task keeps to a guard, whatever has become of it in a step. -/
theorem Origin.obeys {t : TaskId} {p : Process} (hp : Origin w mint s es s' t p) (ho : Tidy w s)
    (hd : s.store.Sound mint) (hpending : ∀ u n, g.pending u n → g'.pending u n)
    (hwriting : ∀ u, g.writing u → g'.writing u)
    (hpass : ∀ u n, g.pending u n → ¬ n < (s.fences.fence u.id).stamp → g.writing u)
    (hview : ∀ u n, s.store.view u.id = some u → g'.pending u n) (h : s.Obeys g) :
    p.Obeys g' := by
  cases hp with
  | same ht => exact (h _ _ ht).mono hpending hwriting
  | begun hj ht _ => exact (start_starts hj).obeys.process (by simp)
  | spawned hu hst ht =>
      obtain ⟨v, n, rfl, hspawns⟩ := ho.spawns hu hst
      exact Stage.Obeys.process (hpending v n (hspawns.obeys (h _ _ hu))) (by simp)
  | turned ht hst _ _ =>
      have hsucc := ho.successor ht hst
      exact ((hsucc.obeys (h _ _ ht) hpass).mono hpending hwriting).process (by simp)
  | queued ht ha => exact ((h _ _ ht).1.mono hpending hwriting).process (by simp)
  | granted ht ha => exact ((h _ _ ht).1.mono hpending hwriting).process (by simp)
  | exchanged ht hq _ _ => exact ((h _ _ ht).1.mono hpending hwriting).process (by simp)
  | failed ht hq => exact ((h _ _ ht).1.mono hpending hwriting).process (by simp)
  | @served st q ht hq _ _ =>
      refine ⟨(h _ _ ht).1.mono hpending hwriting, ?_⟩
      split
      · rename_i id n purpose u hst hsd
        subst hst
        cases hq
        have hr : (s.store.serve mint (.get id)).1 = .ok (.user u) := by simpa using hsd
        exact hview u n (Directory.view_of_serve (q := .get id) hd trivial hr)
      · rename_i email n u hst hsd
        subst hst
        cases hq
        have hr : (s.store.serve mint (.getByEmail email)).1 = .ok (.user u) := by simpa using hsd
        exact hview u n (Directory.view_of_serve (q := .getByEmail email) hd trivial hr)
      · trivial
  | refused ht hq he =>
      refine ⟨(h _ _ ht).1.mono hpending hwriting, ?_⟩
      split
      · rename_i hsd
        cases hsd
      · rename_i hsd
        cases hsd
      · trivial

theorem Step.obeys (hs : Step w mint s es s') (ho : Tidy w s) (hd : s.store.Sound mint)
    (hpending : ∀ u n, g.pending u n → g'.pending u n) (hwriting : ∀ u, g.writing u → g'.writing u)
    (hpass : ∀ u n, g.pending u n → ¬ n < (s.fences.fence u.id).stamp → g.writing u)
    (hview : ∀ u n, s.store.view u.id = some u → g'.pending u n) (h : s.Obeys g) :
    s'.Obeys g' :=
  fun _ _ hp => (hs.origin ho hp).obeys ho hd hpending hwriting hpass hview h

end System

end UserDirectory
