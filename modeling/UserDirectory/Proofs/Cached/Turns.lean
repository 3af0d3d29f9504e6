import Mathlib.Algebra.BigOperators.Group.Finset.Piecewise
import Mathlib.Algebra.GroupWithZero.Nat
import Mathlib.Algebra.Order.BigOperators.Group.Finset
import UserDirectory.Cached.Rank
import UserDirectory.Proofs.Cached.Split
import UserDirectory.Proofs.Cached.World

/-!
How many turns there are in a course of steps. Each turn lowers the rank of the task that takes it
by more than the rank of the write-back that it leaves behind, and no other step raises a rank.
-/

namespace UserDirectory

namespace Event

def isTurnOf (t : TaskId) : Event → Bool
  | .turned u _ _ => u = t
  | _ => false

def isTurn : Event → Bool
  | .turned _ _ _ => true
  | _ => false

def allowance : Event → Nat
  | .began _ j => j.rank
  | _ => 0

end Event

def Next.rank : Next → Nat
  | .stage st => st.rank
  | .finished _ => 0

/-- The turns that follow a turn, of the task and of the write-back that it leaves behind. -/
def Turn.followUp (t : Turn) : Nat := t.next.rank + t.spawned.elim 0 Stage.rank

/-- The turns that a task has taken; each ends one of its waits. -/
def turnsOf (t : TaskId) (es : List Event) : Nat := es.countP (Event.isTurnOf t)

def turns (es : List Event) : Nat := es.countP Event.isTurn

def allowance (es : List Event) : Nat := (es.map Event.allowance).sum

variable {w : Wiring} {mint : Mint} {f : Fences} {es es' : List Event} {t u n : TaskId}

@[simp] theorem turnsOf_append (t : TaskId) (es es' : List Event) :
    turnsOf t (es ++ es') = turnsOf t es + turnsOf t es' := List.countP_append

@[simp] theorem turns_append (es es' : List Event) : turns (es ++ es') = turns es + turns es' :=
  List.countP_append

@[simp] theorem allowance_append (es es' : List Event) :
    allowance (es ++ es') = allowance es + allowance es' := by
  simp [allowance]

theorem turnsOf_eq_zero (h : ∀ st r, .turned t st r ∉ es) : turnsOf t es = 0 := by
  refine List.countP_eq_zero.mpr ?_
  intro e he ht
  cases e with
  | turned u st r => exact h st r (of_decide_eq_true ht ▸ he)
  | _ => cases ht

theorem turns_eq_zero (h : ∀ t st r, .turned t st r ∉ es) : turns es = 0 := by
  refine List.countP_eq_zero.mpr ?_
  intro e he ht
  cases e with
  | turned u st r => exact h u st r he
  | _ => cases ht

theorem turnsOf_turned (t u : TaskId) (st : Stage) (r : Reply) (next : Next) :
    turnsOf u (.turned t st r :: next.events t) = if t = u then 1 else 0 := by
  have hrest : turnsOf u (next.events t) = 0 := by cases next <;> rfl
  rw [turnsOf, List.countP_cons, ← turnsOf, hrest]
  simp [Event.isTurnOf]

theorem turns_turned (t : TaskId) (st : Stage) (r : Reply) (next : Next) :
    turns (.turned t st r :: next.events t) = 1 := by
  cases next <;> rfl

theorem Stage.rank_pos (st : Stage) : 0 < st.rank := by
  cases st with
  | dropIndex email afterwards =>
      cases afterwards with
      | lookUp email n => exact Nat.succ_pos 5
      | answer emails a => exact Nat.lt_add_right _ Nat.one_pos
  | _ => simp only [Stage.rank]; omega

theorem Job.Starts.rank_le {j : Job} {st : Stage} (h : j.Starts w f st) : st.rank ≤ j.rank := by
  cases h <;> simp [Stage.rank, Job.rank, Purpose.rank]

theorem populate_spawned {id : Uuid} {u : User} {n : Nat} {p : Purpose} {b st : Stage}
    (hb : (populate w f id u n p).spawned = some b)
    (hst : (populate w f id u n p).next = .stage st) : p.Continues w u st := by
  have hdeliver : (deliver w f id u p).LeadsTo (p.Continues w u) (p.Yields u) fun _ _ => True :=
    deliver_leadsTo (fun _ h => h) fun _ h => h
  simp only [populate] at hb hst
  split at hst
  · exact hdeliver.stage st hst
  · rename_i hw
    rw [if_neg hw] at hb
    split at hst
    · rename_i hinline
      rw [if_pos hinline] at hb
      cases hb
    · exact hdeliver.stage st hst

theorem Stage.rank_of_spawned (st : Stage) {r : Reply} (hr : r.Fits (st.request w)) {b : Stage}
    (hb : (st.turn w f r).spawned = some b) : b.rank = 3 := by
  obtain ⟨u, n, rfl, -⟩ := (turn_leadsTo st hr).spawned b hb
  rfl

/-- A turn brings a task closer to its end by more than the write-back takes that it leaves
behind. -/
theorem Stage.followUp_turn_lt (st : Stage) {r : Reply} (hr : r.Fits (st.request w)) :
    (st.turn w f r).followUp < st.rank := by
  rcases hb : (st.turn w f r).spawned with _ | b
  · simp only [Turn.followUp, hb, Option.elim_none, Nat.add_zero]
    cases hst : (st.turn w f r).next with
    | stage st' => exact ((turn_leadsTo st hr).stage st' hst).rank_lt
    | finished a => exact st.rank_pos
  · simp only [Turn.followUp, hb, Option.elim_some, st.rank_of_spawned hr hb]
    obtain ⟨u, n, rfl, hspawns⟩ := (turn_leadsTo st hr).spawned b hb
    cases hst : (st.turn w f r).next with
    | stage st' =>
        cases hspawns with
        | @fetched id _ p =>
            have hle : st'.rank ≤ p.rank := (populate_spawned hb hst).rank_le
            change st'.rank + 3 < 5 + p.rank
            omega
        | found =>
            have hle : st'.rank ≤ Purpose.rank .answer := (populate_spawned hb hst).rank_le
            change st'.rank + 3 < 5
            exact Nat.lt_of_le_of_lt (Nat.add_le_add_right hle 3) (by decide)
    | finished a =>
        cases hspawns with
        | @fetched id _ p =>
            change 0 + 3 < 5 + p.rank
            omega
        | found => exact (by decide : 0 + 3 < 5)

/-- What a step, of which `es` is seen, does to the turns that are left to the tasks, when all tasks
below `n` and no others were there before it, and `n` may have come by it. -/
structure Spends (n : TaskId) (left left' : TaskId → Nat) (es : List Event) : Prop where
  old : ∀ t < n, left' t + turnsOf t es ≤ left t
  unborn : ∀ t, n ≤ t → turnsOf t es = 0
  begun : ∀ t j, .began t j ∈ es → t = n ∧ left' n ≤ j.rank
  unbegun : (∀ j, .began n j ∉ es) → left' n ≤ 3
  total : ∑ t ∈ Finset.range (n + 1), left' t + turns es ≤
    ∑ t ∈ Finset.range n, left t + allowance es

variable {left left' : TaskId → Nat}

theorem Spends.add (h : Spends n left left' es) (rest : TaskId → Nat) (hn : rest n = 0) :
    Spends n (fun t => left t + rest t) (fun t => left' t + rest t) es where
  old t ht := by
    have hold := h.old t ht
    omega
  unborn := h.unborn
  begun t j hj := by
    rw [hn]
    exact h.begun t j hj
  unbegun hj := by
    rw [hn]
    exact h.unbegun hj
  total := by
    have htotal := h.total
    rw [Finset.sum_add_distrib, Finset.sum_add_distrib, Finset.sum_range_succ rest, hn]
    omega

theorem Spends.of_le (hle : ∀ t, left' t ≤ left t) (hn : left n = 0)
    (hturned : ∀ t st r, .turned t st r ∉ es) (hbegan : ∀ t j, .began t j ∉ es) :
    Spends n left left' es where
  old t _ := by
    rw [turnsOf_eq_zero (hturned t)]
    exact hle t
  unborn t _ := turnsOf_eq_zero (hturned t)
  begun t j hj := absurd hj (hbegan t j)
  unbegun _ := Nat.le_trans (hle n) (hn ▸ Nat.zero_le 3)
  total := by
    have hsum : ∑ t ∈ Finset.range n, left' t ≤ ∑ t ∈ Finset.range n, left t :=
      Finset.sum_le_sum fun t _ => hle t
    have hlast : left' n ≤ 0 := hn ▸ hle n
    rw [turns_eq_zero hturned, Finset.sum_range_succ]
    omega

namespace System

variable {s s' : System} {st : Stage} {sd : Standing} {r : Reply}

def turnsLeft (s : System) (t : TaskId) : Nat := (s.tasks t).elim 0 fun p => p.stage.rank

theorem turnsLeft_of_tasks {p : Process} (ht : s.tasks t = some p) :
    s.turnsLeft t = p.stage.rank := by
  rw [turnsLeft, ht, Option.elim_some]

theorem turnsLeft_of_none (ht : s.tasks t = none) : s.turnsLeft t = 0 := by
  rw [turnsLeft, ht, Option.elim_none]

theorem turnsLeft_setTask (s : System) (t u : TaskId) (o : Option Process) :
    (s.setTask t o).turnsLeft u =
      if u = t then o.elim 0 fun p => p.stage.rank else s.turnsLeft u := by
  simp only [turnsLeft, tasks_setTask]
  split <;> rfl

theorem turnsLeft_restand (ht : s.tasks t = some ⟨st, sd⟩) (sd' : Standing) (u : TaskId) :
    (s.setTask t (some ⟨st, sd'⟩)).turnsLeft u = s.turnsLeft u := by
  rw [turnsLeft_setTask]
  split
  · subst u
    exact (turnsLeft_of_tasks ht).symm
  · rfl

theorem turnsLeft_grant (s : System) (o : Option TaskId) (u : TaskId) :
    (s.grant o).turnsLeft u = s.turnsLeft u := by
  simp only [turnsLeft, tasks_grant]
  split
  · cases s.tasks u <;> rfl
  · rfl

theorem turnsLeft_spawn? (s : System) (o : Option Stage) (u : TaskId) :
    (s.spawn? o).turnsLeft u =
      if u = s.nextTask then o.elim (s.turnsLeft u) Stage.rank else s.turnsLeft u := by
  cases o with
  | none => simp [spawn?]
  | some st =>
      simp only [turnsLeft, tasks_spawn?]
      split <;> simp

theorem turnsLeft_turn (h : Tidy w s) (ht : s.tasks t = some ⟨st, .replied r⟩) (u : TaskId) :
    (s.turn w t st r).turnsLeft u =
      if u = s.nextTask then (st.turn w s.fences r).spawned.elim 0 Stage.rank
      else if u = t then (st.turn w s.fences r).next.rank else s.turnsLeft u := by
  have hnone : s.tasks s.nextTask = none := h.unused _ (Nat.le_refl _)
  have hnext : s.nextTask ≠ t := Nat.ne_of_gt (h.lt_nextTask ht)
  rw [turn, turnsLeft_spawn?, nextTask_grant, nextTask_setTask, turnsLeft_grant,
    turnsLeft_setTask]
  split
  · rename_i hu
    rw [if_neg (hu ▸ hnext)]
    have hzero : System.turnsLeft { s with fences := (st.turn w s.fences r).fences } u = 0 :=
      turnsLeft_of_none (hu ▸ hnone)
    rw [hzero]
  · split
    · cases (st.turn w s.fences r).next <;> rfl
    · rfl

theorem spends_turn (h : Tidy w s) (ht : s.tasks t = some ⟨st, .replied r⟩) :
    Spends s.nextTask s.turnsLeft (s.turn w t st r).turnsLeft
      (.turned t st r :: (st.turn w s.fences r).next.events t) := by
  have hlt : t < s.nextTask := h.lt_nextTask ht
  have hr := h.fits t _ ht r rfl
  have hfollow : (st.turn w s.fences r).next.rank +
      (st.turn w s.fences r).spawned.elim 0 Stage.rank < s.turnsLeft t := by
    rw [turnsLeft_of_tasks ht]
    exact st.followUp_turn_lt hr
  have hbegan : ∀ u j, .began u j ∉ Event.turned t st r ::
      (st.turn w s.fences r).next.events t :=
    fun u j => Next.not_mem_turned (by simp) (by simp)
  constructor
  · intro u hu
    rw [turnsLeft_turn h ht, turnsOf_turned, if_neg (Nat.ne_of_lt hu)]
    by_cases hut : u = t
    · subst u
      rw [if_pos rfl, if_pos rfl]
      omega
    · rw [if_neg hut, if_neg (Ne.symm hut)]
      exact Nat.le_refl _
  · intro u hu
    rw [turnsOf_turned, if_neg (Nat.ne_of_lt (Nat.lt_of_lt_of_le hlt hu))]
  · exact fun u j hj => absurd hj (hbegan u j)
  · intro _
    rw [turnsLeft_turn h ht, if_pos rfl]
    rcases hb : (st.turn w s.fences r).spawned with _ | b
    · exact Nat.zero_le 3
    · exact Nat.le_of_eq (st.rank_of_spawned hr hb)
  · -- The task that takes the turn pays for the turn and for what it leaves behind.
    have hpaid : ∀ u ∈ Finset.range s.nextTask, (s.turn w t st r).turnsLeft u +
        (if u = t then (st.turn w s.fences r).spawned.elim 0 Stage.rank + 1 else 0) ≤
          s.turnsLeft u := by
      intro u hu
      rw [turnsLeft_turn h ht, if_neg (Nat.ne_of_lt (Finset.mem_range.mp hu))]
      split
      · subst u
        omega
      · exact Nat.le_refl _
    have hsum := Finset.sum_le_sum hpaid
    rw [Finset.sum_add_distrib, Finset.sum_ite_eq', if_pos (Finset.mem_range.mpr hlt)] at hsum
    rw [Finset.sum_range_succ, turns_turned, turnsLeft_turn h ht s.nextTask, if_pos rfl]
    omega

theorem spends_begin {j : Job} (hj : j.start w s.fences = .stage st) :
    Spends s.nextTask s.turnsLeft (s.spawn st).turnsLeft [.began s.nextTask j] := by
  have hleft : ∀ u, (s.spawn st).turnsLeft u =
      if u = s.nextTask then st.rank else s.turnsLeft u := turnsLeft_spawn? s (some st)
  have hrank : (s.spawn st).turnsLeft s.nextTask ≤ j.rank := by
    rw [hleft, if_pos rfl]
    exact (start_starts hj).rank_le
  have hsame : ∀ u < s.nextTask, (s.spawn st).turnsLeft u = s.turnsLeft u := by
    intro u hu
    rw [hleft, if_neg (Nat.ne_of_lt hu)]
  have hturns : ∀ u, turnsOf u [.began s.nextTask j] = 0 := fun u => rfl
  constructor
  · intro u hu
    exact Nat.le_of_eq (hsame u hu)
  · exact fun u _ => hturns u
  · intro u j' hj'
    cases List.mem_singleton.mp hj'
    exact ⟨rfl, hrank⟩
  · exact fun hnot => absurd (List.mem_singleton_self _) (hnot j)
  · have hallowed : allowance [.began s.nextTask j] = j.rank := rfl
    rw [Finset.sum_range_succ, hallowed,
      Finset.sum_congr rfl fun u hu => hsame u (Finset.mem_range.mp hu)]
    exact Nat.add_le_add_left hrank _

theorem turnsLeft_cancel (s : System) (t : TaskId) (p : Process) (u : TaskId) :
    (s.cancel t p).turnsLeft u = if u = t then 0 else s.turnsLeft u := by
  have hset : ∀ s' : System, s'.tasks = s.tasks → (s'.setTask t none).turnsLeft u =
      if u = t then 0 else s.turnsLeft u := by
    intro s' hs'
    rw [turnsLeft_setTask, turnsLeft, hs', turnsLeft]
    rfl
  simp only [cancel]
  split
  · exact hset s rfl
  · rw [turnsLeft_grant]
    exact hset s rfl

theorem turnsLeft_cancel_le (s : System) (t : TaskId) (p : Process) (u : TaskId) :
    (s.cancel t p).turnsLeft u ≤ s.turnsLeft u := by
  rw [turnsLeft_cancel]
  split
  · exact Nat.zero_le _
  · exact Nat.le_refl _

theorem tasks_ne_none_iff : s.tasks t ≠ none ↔ 0 < s.turnsLeft t := by
  rcases ht : s.tasks t with _ | p
  · simp [turnsLeft_of_none ht]
  · simp [turnsLeft_of_tasks ht, p.stage.rank_pos]

theorem Step.tasks_ne_none (hs : Step w mint s es s') (h : Tidy w s) (ht : s.tasks t ≠ none)
    (hcancelled : .cancelled t ∉ es) (hreturned : ∀ a, .returned t a ∉ es) :
    s'.tasks t ≠ none := by
  have hset : ∀ {x : System} {u p}, x.tasks = s.tasks → (x.setTask u (some p)).tasks t ≠ none := by
    intro x u p hx
    rw [tasks_setTask, hx]
    split
    · exact Option.some_ne_none p
    · exact ht
  cases hs with
  | begin hj =>
      rw [tasks_spawn]
      split
      · exact Option.some_ne_none _
      · exact ht
  | exchange hu hq => exact hset rfl
  | fail hu hq => exact hset rfl
  | serve hu hq => exact hset rfl
  | refuse hu hq he => exact hset rfl
  | ask hu hq => exact hset rfl
  | @turn u st r hu =>
      have hnew : t ≠ s.nextTask := by
        rintro rfl
        exact ht (h.unused _ (Nat.le_refl _))
      rw [tasks_ne_none_iff, turnsLeft_turn h hu, if_neg hnew]
      split
      · subst t
        rcases hnext : (st.turn w s.fences r).next with st' | a
        · exact st'.rank_pos
        · refine absurd (List.mem_cons_of_mem _ ?_) (hreturned a)
          rw [hnext]
          exact List.mem_singleton_self _
      · exact tasks_ne_none_iff.mp ht
  | cancel hu =>
      have hne : t ≠ _ := fun he => hcancelled (List.mem_singleton.mpr (congrArg _ he))
      rw [tasks_ne_none_iff, turnsLeft_cancel, if_neg hne]
      exact tasks_ne_none_iff.mp ht
  | reject e => exact ht
  | evict key => exact ht
  | meddle key bytes lifetime => exact ht
  | elapse ms => exact ht

theorem Step.spends (hs : Step w mint s es s') (h : Tidy w s) :
    Spends s.nextTask s.turnsLeft s'.turnsLeft es := by
  have hn : s.turnsLeft s.nextTask = 0 := turnsLeft_of_none (h.unused _ (Nat.le_refl _))
  have hstays : ∀ {t st sd sd'}, s.tasks t = some ⟨st, sd⟩ → ∀ u,
      (s.setTask t (some ⟨st, sd'⟩)).turnsLeft u ≤ s.turnsLeft u :=
    fun ht u => Nat.le_of_eq (turnsLeft_restand ht _ u)
  cases hs with
  | begin hj => exact spends_begin hj
  | turn ht => exact spends_turn h ht
  | cancel ht => exact .of_le (turnsLeft_cancel_le s _ _) hn (by simp) (by simp)
  | exchange ht hq => exact .of_le (hstays ht) hn (by simp) (by simp)
  | fail ht hq => exact .of_le (hstays ht) hn (by simp) (by simp)
  | serve ht hq => exact .of_le (hstays ht) hn (by simp) (by simp)
  | refuse ht hq he => exact .of_le (hstays ht) hn (by simp) (by simp)
  | ask ht hq => exact .of_le (hstays ht) hn (by simp) (by simp)
  | reject e => exact .of_le (fun u => Nat.le_refl _) hn (by simp) (by simp)
  | evict key => exact .of_le (fun u => Nat.le_refl _) hn (by simp) (by simp)
  | meddle key bytes lifetime => exact .of_le (fun u => Nat.le_refl _) hn (by simp) (by simp)
  | elapse ms => exact .of_le (fun u => Nat.le_refl _) hn (by simp) (by simp)

theorem nextTask_spawn?_le (s : System) (o : Option Stage) :
    (s.spawn? o).nextTask ≤ s.nextTask + 1 := by
  cases o with
  | none => exact Nat.le_succ _
  | some st => exact Nat.le_refl _

theorem Step.nextTask_le_succ (hs : Step w mint s es s') : s'.nextTask ≤ s.nextTask + 1 := by
  cases hs with
  | begin hj => exact Nat.le_refl _
  | reject e => exact Nat.le_refl _
  | turn ht =>
      refine Nat.le_trans (nextTask_spawn?_le _ _) ?_
      rw [nextTask_grant, nextTask_setTask]
  | cancel ht =>
      simp only [System.cancel]
      split
      · exact Nat.le_succ _
      · rw [nextTask_grant]
        exact Nat.le_succ _
  | _ => exact Nat.le_succ _

end System

namespace SplitSystem

variable {s s' : SplitSystem} {j : Job}

def turnsLeft (s : SplitSystem) (t : TaskId) : Nat := (s.tasks t).elim 0 fun p => p.stage.rank

theorem turnsLeft_of_none (ht : s.tasks t = none) : s.turnsLeft t = 0 := by
  rw [turnsLeft, ht, Option.elim_none]

theorem turnsLeft_pos (ht : s.tasks t ≠ none) : 0 < s.turnsLeft t := by
  obtain ⟨p, hp⟩ := Option.ne_none_iff_exists'.mp ht
  rw [turnsLeft, hp]
  exact p.stage.rank_pos

theorem turnsLeft_part (s : SplitSystem) (g : Nat) (t : TaskId) :
    (s.part g).turnsLeft t = if s.copy t = g then s.turnsLeft t else 0 := by
  simp only [System.turnsLeft, tasks_part, turnsLeft]
  split <;> rfl

theorem Step.spends (hs : Step w mint s es s') (h : Orderly w s) :
    Spends s.nextTask s.turnsLeft s'.turnsLeft es := by
  cases hs with
  | @within es x g hs =>
      have hpart := (hs.spends (h.part g).tidy).add
        (fun t => if s.copy t = g ∨ s.nextTask ≤ t then 0 else s.turnsLeft t)
        (if_pos (Or.inr (Nat.le_refl _)))
      have hleft : s.turnsLeft = fun t => (s.part g).turnsLeft t +
          if s.copy t = g ∨ s.nextTask ≤ t then 0 else s.turnsLeft t := by
        funext t
        rw [turnsLeft_part]
        by_cases hg : s.copy t = g
        · simp [hg]
        · by_cases ht : s.nextTask ≤ t
          · simp [ht, turnsLeft_of_none (h.unused ht)]
          · simp [hg, ht]
      have hleft' : (s.put g x).turnsLeft = fun t => x.turnsLeft t +
          if s.copy t = g ∨ s.nextTask ≤ t then 0 else s.turnsLeft t := by
        funext t
        simp only [turnsLeft, put]
        split
        · rfl
        · rename_i hot
          obtain ⟨hg, ht⟩ := not_or.mp hot
          have hnone : x.tasks t = none := by
            refine hs.tasks_eq_none (h.part g).tidy (Nat.lt_of_not_le ht) ?_
            rw [tasks_part, if_neg hg]
          rw [System.turnsLeft_of_none hnone, Nat.zero_add]
      rw [hleft, hleft']
      exact hpart
  | move g ht hq =>
      exact .of_le (fun t => Nat.le_refl _) (turnsLeft_of_none (h.unused (Nat.le_refl _)))
        (by simp) (by simp)

theorem Step.nextTask_le (hs : Step w mint s es s') :
    s.nextTask ≤ s'.nextTask ∧ s'.nextTask ≤ s.nextTask + 1 := by
  cases hs with
  | within g hs => exact ⟨hs.nextTask_le, hs.nextTask_le_succ⟩
  | move g ht hq => exact ⟨Nat.le_refl _, Nat.le_succ _⟩

theorem Step.lt_of_began (hs : Step w mint s es s') (h : .began t j ∈ es) : t < s'.nextTask := by
  cases hs with
  | within g hs =>
      obtain ⟨st, -, rfl, -, rfl⟩ := hs.of_began h
      exact Nat.lt_succ_self _
  | move g ht hq => cases h

/-- The turns that are left to all tasks and to the write-backs that they may leave behind. -/
def load (s : SplitSystem) : Nat := ∑ t ∈ Finset.range s.nextTask, s.turnsLeft t

theorem Step.load_le (hs : Step w mint s es s') (h : Orderly w s) :
    s'.load + turns es ≤ s.load + allowance es := by
  have hsum : s'.load ≤ ∑ t ∈ Finset.range (s.nextTask + 1), s'.turnsLeft t :=
    Finset.sum_le_sum_of_subset (Finset.range_subset_range.mpr hs.nextTask_le.2)
  exact Nat.le_trans (Nat.add_le_add_right hsum _) (hs.spends h).total

theorem Run.load_le (h : Run w mint s es s') (hs : Orderly w s) :
    s'.load + turns es ≤ s.load + allowance es := by
  induction h with
  | refl => exact Nat.le_refl _
  | step h hx ih =>
      have hle := hx.load_le (h.orderly hs)
      rw [turns_append, allowance_append]
      omega

/-- The turns that each task has taken and those that are left to it. -/
structure Budget (es : List Event) (s : SplitSystem) : Prop where
  unborn : ∀ t, s.nextTask ≤ t → turnsOf t es = 0
  named : ∀ t j, .began t j ∈ es → t < s.nextTask
  calls : ∀ t j, .began t j ∈ es → turnsOf t es + s.turnsLeft t ≤ j.rank
  writeBacks : ∀ t, (∀ j, .began t j ∉ es) → turnsOf t es + s.turnsLeft t ≤ 3

theorem Budget.step (h : Budget es s) (ho : Orderly w s) (hs : Step w mint s es' s') :
    Budget (es ++ es') s' := by
  have hsp := hs.spends ho
  obtain ⟨hle, hle'⟩ := hs.nextTask_le
  constructor
  · intro t ht
    rw [turnsOf_append, h.unborn t (Nat.le_trans hle ht), hsp.unborn t (Nat.le_trans hle ht)]
  · intro t j hj
    rcases List.mem_append.mp hj with hj | hj
    · exact Nat.lt_of_lt_of_le (h.named t j hj) hle
    · exact hs.lt_of_began hj
  · intro t j hj
    rw [turnsOf_append]
    rcases List.mem_append.mp hj with hj | hj
    · have hcall := h.calls t j hj
      have hold := hsp.old t (h.named t j hj)
      omega
    · obtain ⟨rfl, hrank⟩ := hsp.begun t j hj
      rw [h.unborn _ (Nat.le_refl _), hsp.unborn _ (Nat.le_refl _)]
      simpa using hrank
  · intro t hj
    rw [turnsOf_append]
    rcases Nat.lt_trichotomy t s.nextTask with ht | rfl | ht
    · have hback := h.writeBacks t fun j hb => hj j (List.mem_append_left _ hb)
      have hold := hsp.old t ht
      omega
    · have hback := hsp.unbegun fun j hb => hj j (List.mem_append_right _ hb)
      rw [h.unborn _ (Nat.le_refl _), hsp.unborn _ (Nat.le_refl _)]
      simpa using hback
    · rw [h.unborn t (Nat.le_of_lt ht), hsp.unborn t (Nat.le_of_lt ht),
        turnsLeft_of_none ((hs.orderly ho).unused (Nat.le_trans hle' ht))]
      exact Nat.zero_le 3

theorem Run.budget {d : Directory} {c : MemoryCache}
    (h : Run w mint { store := d, cache := c } es s) : Budget es s := by
  induction h with
  | refl =>
      constructor
      · exact fun t _ => rfl
      · exact fun t j hj => absurd hj (List.not_mem_nil)
      · exact fun t j hj => absurd hj (List.not_mem_nil)
      · exact fun t _ => Nat.zero_le 3
  | step h hs ih => exact ih.step (h.orderly (orderly_start w d c)) hs

end SplitSystem

end UserDirectory
