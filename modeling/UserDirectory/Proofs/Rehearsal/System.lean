import Mathlib.Data.List.Pairwise
import UserDirectory.Proofs.Cached.Exclusion
import UserDirectory.Rehearsal.Basic

/-!
The system that a rehearsal shows. Gates, deadlines and the order in which tasks run are left
aside; what is left of a rehearsal is a store, a cache, the fences, and how far each task is.
-/

namespace UserDirectory

open UserDirectory.System

/-- How far a task is. At a gate behind its call it has the reply already. -/
def Wait.standing : Wait → Standing
  | .turn | .before | .call | .hang => .ready
  | .fence => .queued
  | .after reply | .replied reply => .replied reply

/-- Whether a task is kept waiting by a gate. -/
def Wait.IsGated : Wait → Prop
  | .before | .after _ => True
  | _ => False

/-- Whether two gates do not hold one task. -/
def Gate.Apart (g g' : Gate) : Prop := ∀ t, g.state = .holding t → g'.state ≠ .holding t

def Task.process (t : Task) : Process := ⟨t.stage, t.wait.standing⟩

/-- What holds of a task between two steps. -/
structure Task.Valid (w : Wiring) (gates : List Gate) (t : Task) : Prop where
  called : t.wait = .before ∨ t.wait = .call → ∀ id, t.stage.request w ≠ .fence id
  timed : t.wait ≠ .turn → t.deadline.isSome = true → ∃ q, t.stage.request w = .cache q
  gated : ∀ g ∈ gates, g.state = .holding t.id → t.wait.IsGated

namespace Rehearsal

def system (r : Rehearsal) : System where
  store := r.store
  cache := r.cache
  fences := r.fences
  now := entryClock
  tasks t := (r.task? t).map Task.process
  nextTask := r.nextTask

/-- What holds of a rehearsal, but for one of its tasks, while that takes a step. -/
structure ValidBut (o : Option TaskId) (r : Rehearsal) : Prop where
  named : ∀ t ∈ r.tasks, t.id < r.nextTask
  nodup : (r.tasks.map (·.id)).Nodup
  ended : ∀ x ∈ r.finished, x.1 < r.nextTask
  held : ∀ g ∈ r.gates, ∀ t, g.state = .holding t → t < r.nextTask
  apart : r.gates.Pairwise Gate.Apart
  tasks : ∀ t ∈ r.tasks, some t.id ≠ o → t.Valid r.wiring r.gates

/-- What holds of a rehearsal between two steps. -/
structure Valid (r : Rehearsal) : Prop extends r.ValidBut none where
  orderly : Orderly r.wiring r.system

/-- Whether a task had ended with a reply before a course of steps, or ended with it in that. A call
that is turned down ends with its error. -/
def Ended (r : Rehearsal) (es : List Event) (t : TaskId) (a : StoreReply) : Prop :=
  (t, a) ∈ r.finished ∨ .returned t a ∈ es ∨ ∃ e, a = .error e ∧ .rejected t e ∈ es

/-- Whether a rehearsal comes from another by a course of steps of the system that it shows. -/
structure Follows (r : Rehearsal) (es : List Event) (r' : Rehearsal) : Prop where
  wiring : r'.wiring = r.wiring
  mint : r'.mint = r.mint
  valid : r'.Valid
  run : Run r.wiring r.mint r.system es r'.system
  finished : ∀ t a, (t, a) ∈ r'.finished → r.Ended es t a

variable {r r' r'' : Rehearsal} {t u : Task} {id : TaskId} {o : Option TaskId}
  {es es' : List Event}

theorem mem_of_task? (h : r.task? id = some t) : t ∈ r.tasks ∧ t.id = id :=
  ⟨List.mem_of_find?_eq_some h, by simpa using List.find?_some h⟩

theorem task?_setTask (r : Rehearsal) (t : Task) (id : TaskId) :
    (r.setTask t).task? id = (r.task? id).map fun u => if u.id = t.id then t else u := by
  have hid : ∀ u : Task, (if u.id = t.id then t else u).id = u.id := by
    intro u
    split
    · rename_i h
      exact h.symm
    · rfl
  simp only [task?, setTask, List.find?_map, Function.comp_def, hid]

theorem task?_finish (r : Rehearsal) (id : TaskId) (reply : StoreReply) (u : TaskId) :
    (r.finish id reply).task? u = if u = id then none else r.task? u := by
  simp only [task?, finish, List.find?_filter]
  split
  · subst u
    exact List.find?_eq_none.mpr (by simp)
  · rename_i h
    congr 1
    funext x
    by_cases hx : x.id = u
    · simp [hx, h]
    · simp [hx]

theorem ValidBut.task?_eq_none (h : r.ValidBut o) : r.task? r.nextTask = none := by
  refine List.find?_eq_none.mpr ?_
  intro t ht
  simpa using Nat.ne_of_lt (h.named t ht)

theorem ValidBut.task?_spawn (h : r.ValidBut o) (s : Stage) (u : TaskId) :
    (r.spawn s).task? u =
      if u = r.nextTask then some { id := r.nextTask, stage := s } else r.task? u := by
  simp only [task?, spawn, List.find?_append]
  split
  · subst u
    have hnone := h.task?_eq_none
    rw [task?] at hnone
    simp [hnone]
  · rename_i hu
    simp [Ne.symm hu]

theorem ValidBut.task?_of_mem (h : r.ValidBut o) (ht : t ∈ r.tasks) : r.task? t.id = some t := by
  have hnodup := h.nodup
  rw [task?]
  generalize r.tasks = l at ht hnodup
  induction l with
  | nil => cases ht
  | cons x rest ih =>
      rw [List.map_cons, List.nodup_cons] at hnodup
      rcases List.mem_cons.mp ht with rfl | ht
      · simp
      · have hne : x.id ≠ t.id := by
          intro hx
          exact hnodup.1 (hx ▸ List.mem_map_of_mem ht)
        rw [List.find?_cons_of_neg (by simpa using hne)]
        exact ih ht hnodup.2

theorem ext_tasks {s s' : System} (hstore : s.store = s'.store) (hcache : s.cache = s'.cache)
    (hfences : s.fences = s'.fences) (hnow : s.now = s'.now) (hnext : s.nextTask = s'.nextTask)
    (htasks : ∀ u, s.tasks u = s'.tasks u) : s = s' := by
  cases s
  cases s'
  obtain rfl : _ = _ := funext htasks
  simp_all

theorem system_setTask (ht : r.task? t.id ≠ none) :
    (r.setTask t).system = r.system.setTask t.id (some t.process) := by
  refine ext_tasks rfl rfl rfl rfl rfl ?_
  intro u
  simp only [system, task?_setTask, tasks_setTask, Option.map_map]
  split
  · subst u
    obtain ⟨x, hx⟩ := Option.ne_none_iff_exists'.mp ht
    simp [hx, (mem_of_task? hx).2]
  · rename_i hu
    rcases hx : r.task? u with _ | x
    · rfl
    · have hne : x.id ≠ t.id := (mem_of_task? hx).2 ▸ hu
      simp [hne]

theorem system_finish (r : Rehearsal) (id : TaskId) (reply : StoreReply) :
    (r.finish id reply).system = r.system.setTask id none := by
  refine ext_tasks rfl rfl rfl rfl rfl ?_
  intro u
  simp only [system, task?_finish, tasks_setTask]
  split <;> rfl

theorem ValidBut.system_spawn (h : r.ValidBut o) (s : Stage) :
    (r.spawn s).system = r.system.spawn s := by
  refine ext_tasks rfl rfl rfl rfl rfl ?_
  intro u
  simp only [system, h.task?_spawn, tasks_spawn]
  split <;> rfl

theorem ValidBut.system_spawn? (h : r.ValidBut o) (s : Option Stage) :
    (r.spawn? s).system = r.system.spawn? s := by
  cases s with
  | none => rfl
  | some s => exact h.system_spawn s

theorem system_grant (r : Rehearsal) (o : Option TaskId) :
    (r.grant o).system = r.system.grant o := by
  cases o with
  | none => rfl
  | some id =>
      simp only [grant, System.grant]
      rcases ht : r.task? id with _ | t
      · refine ext_tasks rfl rfl rfl rfl rfl ?_
        intro u
        simp only [system, tasks_setTask]
        split
        · subst u
          simp [ht]
        · rfl
      · obtain rfl := (mem_of_task? ht).2
        have hset := system_setTask (t := { t with wait := .replied .granted })
          (r := r) (by simp [ht])
        refine Eq.trans (b := (r.setTask { t with wait := .replied .granted }).system) rfl ?_
        rw [hset]
        simp [system, ht, Task.process, Wait.standing]

theorem ValidBut.but (h : r.ValidBut none) : r.ValidBut o :=
  ⟨h.named, h.nodup, h.ended, h.held, h.apart, fun t ht _ => h.tasks t ht (by simp)⟩

theorem ValidBut.setTask (h : r.ValidBut (some t.id)) (ht : t.Valid r.wiring r.gates) :
    (r.setTask t).ValidBut none := by
  have hid : ∀ u : Task, (if u.id = t.id then t else u).id = u.id := by
    intro u
    split
    · rename_i hu
      exact hu.symm
    · rfl
  constructor
  · intro x hx
    obtain ⟨u, hu, rfl⟩ := List.mem_map.mp hx
    rw [hid]
    exact h.named u hu
  · simp only [Rehearsal.setTask, List.map_map, Function.comp_def, hid]
    exact h.nodup
  · exact h.ended
  · exact h.held
  · exact h.apart
  · intro x hx _
    obtain ⟨u, hu, rfl⟩ := List.mem_map.mp hx
    split
    · exact ht
    · rename_i hne
      exact h.tasks u hu (by simpa using hne)

theorem ValidBut.finish (h : r.ValidBut (some id)) (hid : id < r.nextTask) (reply : StoreReply) :
    (r.finish id reply).ValidBut none := by
  constructor
  · intro t ht
    exact h.named t (List.mem_filter.mp ht).1
  · exact h.nodup.sublist (List.filter_sublist.map _)
  · intro x hx
    rcases List.mem_cons.mp hx with rfl | hx
    · exact hid
    · exact h.ended x hx
  · exact h.held
  · exact h.apart
  · intro t ht _
    obtain ⟨hmem, hne⟩ := List.mem_filter.mp ht
    exact h.tasks t hmem (by simpa using hne)

theorem ValidBut.spawn (h : r.ValidBut none) (s : Stage) : (r.spawn s).ValidBut none := by
  constructor
  · intro t ht
    rcases List.mem_append.mp ht with ht | ht
    · exact Nat.lt_succ_of_lt (h.named t ht)
    · cases List.mem_singleton.mp ht
      exact Nat.lt_succ_self _
  · rw [Rehearsal.spawn, List.map_append, List.nodup_append]
    refine ⟨h.nodup, by simp, ?_⟩
    intro x hx y hy
    obtain ⟨t, ht, rfl⟩ := List.mem_map.mp hx
    cases List.mem_singleton.mp hy
    exact Nat.ne_of_lt (h.named t ht)
  · exact fun x hx => Nat.lt_succ_of_lt (h.ended x hx)
  · exact fun g hg t ht => Nat.lt_succ_of_lt (h.held g hg t ht)
  · exact h.apart
  · intro t ht _
    rcases List.mem_append.mp ht with ht | ht
    · exact h.tasks t ht (by simp)
    · cases List.mem_singleton.mp ht
      exact
        { called := by simp
          timed := by simp
          gated := fun g hg hs => absurd (h.held g hg _ hs) (Nat.lt_irrefl _) }

theorem ValidBut.spawn? (h : r.ValidBut none) (s : Option Stage) :
    (r.spawn? s).ValidBut none := by
  cases s with
  | none => exact h
  | some s => exact h.spawn s

theorem ValidBut.grant (h : r.ValidBut none) (o : Option TaskId)
    (ho : ∀ id t, o = some id → r.task? id = some t → t.wait = .fence) :
    (r.grant o).ValidBut none := by
  cases o with
  | none => exact h
  | some id =>
      simp only [Rehearsal.grant]
      rcases ht : r.task? id with _ | t
      · exact h
      · have hwait := ho id t rfl ht
        have hvalid := h.tasks t (mem_of_task? ht).1 (by simp)
        have hset : (r.setTask { t with wait := .replied .granted }).ValidBut none := by
          refine h.but.setTask ?_
          exact
            { called := by simp
              timed := fun _ hd => hvalid.timed (by simp [hwait]) hd
              gated := by
                intro g hg hs
                have hgated := hvalid.gated g hg hs
                rw [hwait] at hgated
                exact hgated.elim }
        exact ⟨hset.named, hset.nodup, hset.ended, hset.held, hset.apart, hset.tasks⟩

theorem valid_start (w : Wiring) (mint : Mint) (d : Directory) (c : MemoryCache) :
    Valid { wiring := w, mint, store := d, cache := c } where
  named := by simp
  nodup := by simp
  ended := by simp
  held := by simp
  apart := by simp
  tasks := by simp
  orderly := orderly_start d c

theorem Follows.refl (h : r.Valid) : Follows r [] r :=
  ⟨rfl, rfl, h, .refl _, fun _ _ hx => Or.inl hx⟩

theorem Ended.mono {a : StoreReply} (h : r.Ended es id a) (es' : List Event) :
    r.Ended (es ++ es') id a := by
  rcases h with hx | hx | ⟨e, rfl, he⟩
  · exact Or.inl hx
  · exact Or.inr (Or.inl (List.mem_append_left _ hx))
  · exact Or.inr (Or.inr ⟨e, rfl, List.mem_append_left _ he⟩)

theorem Follows.ended {a : StoreReply} (h : Follows r es r') (ha : r'.Ended es' id a) :
    r.Ended (es ++ es') id a := by
  rcases ha with hx | hx | ⟨e, rfl, he⟩
  · exact (h.finished id a hx).mono es'
  · exact Or.inr (Or.inl (List.mem_append_right _ hx))
  · exact Or.inr (Or.inr ⟨e, rfl, List.mem_append_right _ he⟩)

theorem Follows.trans (h : Follows r es r') (h' : Follows r' es' r'') :
    Follows r (es ++ es') r'' where
  wiring := h'.wiring.trans h.wiring
  mint := h'.mint.trans h.mint
  valid := h'.valid
  run := by
    refine h.run.trans ?_
    rw [← h.wiring, ← h.mint]
    exact h'.run
  finished := fun t a hx => h.ended (h'.finished t a hx)

theorem Valid.follows (h : r.Valid) (hrun : Run r.wiring r.mint r.system es r'.system)
    (hvalid : r'.ValidBut none) (hwiring : r'.wiring = r.wiring) (hmint : r'.mint = r.mint)
    (hfinished : ∀ t a, (t, a) ∈ r'.finished → r.Ended es t a) : Follows r es r' where
  wiring := hwiring
  mint := hmint
  valid :=
    { toValidBut := hvalid
      orderly := by
        rw [hwiring]
        exact hrun.inv _ Step.orderly h.orderly }
  run := hrun
  finished := hfinished

/-- What the system does not show may change, and replies may be taken. -/
theorem Valid.idle (h : r.Valid) (now : Nat) (ready : List TaskId)
    {finished : List (TaskId × StoreReply)} (hf : finished ⊆ r.finished) (nextTimer : Nat)
    (faults : List ScriptedFault) (saved : List User) (trace : List String) :
    Follows r [] { r with now, ready, finished, nextTimer, faults, saved, trace } :=
  h.follows (.refl _)
    ⟨h.named, h.nodup, fun x hx => h.ended x (hf hx), h.held, h.apart, h.tasks⟩ rfl rfl
    fun _ _ hx => Or.inl (hf hx)

end Rehearsal

end UserDirectory
