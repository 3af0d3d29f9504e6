import UserDirectory.Proofs.Rehearsal.Task

namespace UserDirectory

open UserDirectory.System

namespace Rehearsal

variable {r r' : Rehearsal} {t : Task} {id : TaskId} {es es' : List Event}

theorem Valid.settleFor (h : r.Valid) (fuel : Nat) :
    ∃ es, Follows r es (Rehearsal.settleFor fuel r) := by
  induction fuel generalizing r with
  | zero => exact ⟨[], .refl h⟩
  | succ fuel ih =>
      rw [Rehearsal.settleFor]
      cases hready : r.ready with
      | nil => exact ⟨[], .refl h⟩
      | cons id rest =>
          dsimp only
          cases ht : r.task? id with
          | none =>
              have hidle := h.idle r.now rest (List.Subset.refl _) r.nextTimer r.faults r.saved
                r.trace
              obtain ⟨es, hes⟩ := ih hidle.valid
              exact ⟨_, hidle.trans hes⟩
          | some t =>
              obtain rfl := (mem_of_task? ht).2
              obtain ⟨es, hstep⟩ := h.advanceTask ht
              dsimp only
              split
              · rename_i r' heq
                rw [heq] at hstep
                obtain ⟨es', hes'⟩ := ih hstep.valid
                exact ⟨_, hstep.trans hes'⟩
              · rename_i r' heq
                rw [heq] at hstep
                have hidle := hstep.valid.idle r'.now (r'.ready.drop 1) (List.Subset.refl _)
                  r'.nextTimer r'.faults r'.saved r'.trace
                obtain ⟨es', hes'⟩ := ih hidle.valid
                exact ⟨_, hstep.trans (hidle.trans hes')⟩

theorem Valid.settle (h : r.Valid) : ∃ es, Follows r es r.settle := h.settleFor r.work

theorem mem_timers {d : Nat} (hx : (d, t) ∈ r.timers) :
    t ∈ r.tasks ∧ t.wait ≠ .turn ∧ t.deadline = some d := by
  rw [timers, List.mem_mergeSort] at hx
  obtain ⟨u, hu, heq⟩ := List.mem_filterMap.mp hx
  split at heq
  · cases heq
    refine ⟨hu, ?_, by assumption⟩
    simp_all
  · cases heq
    refine ⟨hu, ?_, by assumption⟩
    simp_all
  · cases heq
    refine ⟨hu, ?_, by assumption⟩
    simp_all
  · cases heq

theorem Valid.expire (h : r.Valid) {u : Task} {q : CacheRequest} (hu : r.task? t.id = some u)
    (hstage : u.stage = t.stage) (hq : t.stage.request r.wiring = .cache q) :
    ∃ es, Follows r es (r.expire t) := by
  obtain ⟨hmem, hid⟩ := mem_of_task? hu
  have htask : r.system.tasks t.id = some ⟨t.stage, u.wait.standing⟩ := by
    simp only [system, hu, Option.map_some, Task.process, hstage]
  have hx : Took r t.id [.exchanged t.id q (.error .timeout)]
      (r.desert t.id, { t with wait := .replied (.cache (.error .timeout)) }) :=
    { toBeside := (Beside.refl h.apart).desert t.id
      named := rfl
      valid :=
        { called := by simp
          timed := fun _ _ => ⟨q, hq⟩
          gated := fun g hg hs => absurd hs (ne_holding_of_mem_desert hg) }
      run := .single (.fail htask hq) }
  have hfollows := hx.follows h hu
  exact ⟨_, hfollows.trans (hfollows.valid.idle _ _ (List.Subset.refl _) _ _ _ _)⟩

theorem stage_expire {u x : Task} (hx : r.task? id = some x) (hu : r.task? t.id = some u)
    (hstage : u.stage = t.stage) :
    ∃ y, (r.expire t).task? id = some y ∧ y.stage = x.stage := by
  have htask : (r.expire t).task? id =
      (r.task? id).map fun v =>
        if v.id = t.id then { t with wait := .replied (.cache (.error .timeout)) } else v :=
    task?_setTask (r.desert t.id) { t with wait := .replied (.cache (.error .timeout)) } id
  rw [htask, hx]
  refine ⟨_, rfl, ?_⟩
  dsimp only
  split
  · rename_i hid
    rw [(mem_of_task? hx).2] at hid
    subst id
    rw [hx] at hu
    cases hu
    exact hstage.symm
  · rfl

theorem Valid.expireAll (h : r.Valid) (late : List (Nat × Task))
    (hstage : ∀ x ∈ late, ∃ u, r.task? x.2.id = some u ∧ u.stage = x.2.stage)
    (hcache : ∀ x ∈ late, ∃ q, x.2.stage.request r.wiring = .cache q) :
    ∃ es, Follows r es (late.foldl (fun r x => r.expire x.2) r) := by
  induction late generalizing r with
  | nil => exact ⟨[], .refl h⟩
  | cons x rest ih =>
      obtain ⟨u, hu, hux⟩ := hstage x List.mem_cons_self
      obtain ⟨q, hq⟩ := hcache x List.mem_cons_self
      obtain ⟨es, hes⟩ := h.expire hu hux hq
      have hrest : ∀ y ∈ rest, ∃ v, (r.expire x.2).task? y.2.id = some v ∧
          v.stage = y.2.stage := by
        intro y hy
        obtain ⟨v, hv, hvy⟩ := hstage y (List.mem_cons_of_mem _ hy)
        obtain ⟨v', hv', heq⟩ := stage_expire hv hu hux
        exact ⟨v', hv', heq.trans hvy⟩
      obtain ⟨es', hes'⟩ := ih hes.valid hrest (by
        rw [hes.wiring]
        exact fun y hy => hcache y (List.mem_cons_of_mem _ hy))
      exact ⟨_, hes.trans hes'⟩

theorem Valid.passTo (h : r.Valid) (time : Nat) : ∃ es, Follows r es (r.passTo time) := by
  have hnow := h.idle (max r.now time) r.ready (List.Subset.refl _) r.nextTimer r.faults r.saved
    r.trace
  obtain ⟨es, hes⟩ := hnow.valid.expireAll
    ((timers { r with now := max r.now time }).filter (·.1 ≤ max r.now time)) (by
      intro x hx
      obtain ⟨hmem, -, -⟩ := mem_timers (List.mem_filter.mp hx).1
      exact ⟨x.2, hnow.valid.task?_of_mem hmem, rfl⟩) (by
      intro x hx
      obtain ⟨hmem, hwait, hdeadline⟩ := mem_timers (List.mem_filter.mp hx).1
      exact (hnow.valid.tasks x.2 hmem (by simp)).timed hwait (by rw [hdeadline]; rfl))
  exact ⟨_, hnow.trans hes⟩

theorem Valid.awaitFor (h : r.Valid) (fuel : Nat) (limit : Option Nat) (id : TaskId) :
    ∃ es, Follows r es (Rehearsal.awaitFor fuel limit id r) := by
  induction fuel generalizing r with
  | zero => exact h.settle
  | succ fuel ih =>
      obtain ⟨es, hes⟩ := h.settle
      rw [Rehearsal.awaitFor]
      split
      · exact ⟨es, hes⟩
      · split
        · split
          · obtain ⟨es', hes'⟩ := hes.valid.passTo (limit.getD r.settle.now)
            exact ⟨_, hes.trans hes'⟩
          · rename_i d x rest heq _
            obtain ⟨es', hes'⟩ := hes.valid.passTo d
            obtain ⟨es'', hes''⟩ := ih hes'.valid
            exact ⟨_, hes.trans (hes'.trans hes'')⟩
        · obtain ⟨es', hes'⟩ := hes.valid.passTo (limit.getD r.settle.now)
          exact ⟨_, hes.trans hes'⟩

theorem mem_of_lookup {l : List (TaskId × StoreReply)} {a : StoreReply}
    (h : l.lookup id = some a) : (id, a) ∈ l := by
  obtain ⟨l₁, l₂, rfl, -⟩ := List.lookup_eq_some_iff.mp h
  exact List.mem_append_right _ List.mem_cons_self

/-- The reply that is taken is the one with which the task has ended. -/
theorem Valid.join (h : r.Valid) (id : TaskId) :
    ∃ es, Follows r es (r.join id).2 ∧ ∀ a, (r.join id).1 = some a → r.Ended es id a := by
  obtain ⟨es, hes⟩ := h.awaitFor r.work (some (r.now + patience)) id
  obtain ⟨es', hes'⟩ := hes.valid.settle
  have hall := hes.trans hes'
  rw [Rehearsal.join]
  change Follows r (es ++ es') (r.await (some (r.now + patience)) id).settle at hall
  generalize (r.await (some (r.now + patience)) id).settle = r' at hall
  split
  · rename_i reply heq
    have hsub : r'.finished.filter (·.1 ≠ id) ⊆ r'.finished := List.filter_sublist.subset
    have hidle := hall.valid.idle r'.now r'.ready hsub r'.nextTimer r'.faults r'.saved r'.trace
    refine ⟨_, hall.trans hidle, ?_⟩
    rintro a ⟨⟩
    rw [List.append_nil]
    exact hall.finished id reply (mem_of_lookup heq)
  · exact ⟨_, hall, by simp⟩

/-- What is seen when a client comes with a job, or fails before it has one. -/
def beginning (t : TaskId) : Except UserError Job → Event
  | .ok j => .began t j
  | .error e => .rejected t e

theorem start_eq_stage (w : Wiring) (f : Fences) (j : Job) : ∃ s, j.start w f = .stage s := by
  rcases j with (_ | _ | u | _ | _ | _) | _
  case request.save =>
      simp only [Job.start, Next.save]
      split
      · exact ⟨_, rfl⟩
      · exact ⟨_, rfl⟩
  all_goals exact ⟨_, rfl⟩

theorem Valid.begin (h : r.Valid) (j : Except UserError Job) :
    Follows r [beginning r.nextTask j] (r.begin j).2 := by
  cases j with
  | error e =>
      refine h.follows (.single (.reject e)) ?_ rfl rfl ?_
      · exact
          { named := fun t ht => Nat.lt_succ_of_lt (h.named t ht)
            nodup := h.nodup
            ended := by
              intro x hx
              rcases List.mem_cons.mp hx with rfl | hx
              · exact Nat.lt_succ_self _
              · exact Nat.lt_succ_of_lt (h.ended x hx)
            held := fun g hg t ht => Nat.lt_succ_of_lt (h.held g hg t ht)
            apart := h.apart
            tasks := h.tasks }
      · intro t a ha
        rcases List.mem_cons.mp ha with heq | ha
        · cases heq
          exact Or.inr (Or.inr ⟨e, rfl, List.mem_singleton_self _⟩)
        · exact Or.inl ha
  | ok j =>
      obtain ⟨s, hs⟩ := start_eq_stage r.wiring r.fences j
      have heq : (r.begin (.ok j)).2 = r.spawn s := by
        simp only [Rehearsal.begin, hs]
      have hstep : Step r.wiring r.mint r.system [.began r.nextTask j] (r.spawn s).system := by
        rw [h.system_spawn s]
        exact .begin hs
      rw [heq]
      exact h.follows (.single hstep) (h.toValidBut.spawn s) rfl rfl fun _ _ ha => Or.inl ha

theorem Valid.start (h : r.Valid) (j : Except UserError Job) :
    ∃ es, Follows r (beginning r.nextTask j :: es) (r.start j).2 := by
  obtain ⟨es, hes⟩ := (h.begin j).valid.settle
  exact ⟨es, (h.begin j).trans hes⟩

theorem Valid.serve (h : r.Valid) (j : Except UserError Job) :
    ∃ es, Follows r (beginning r.nextTask j :: es) (r.serve j).2 ∧
      ∀ a, (r.serve j).1 = some a → r.Ended (beginning r.nextTask j :: es) r.nextTask a := by
  have hbegin := h.begin j
  obtain ⟨es, hes, ha⟩ := hbegin.valid.join r.nextTask
  exact ⟨es, hbegin.trans hes, fun a heq => hbegin.ended (ha a heq)⟩

theorem Valid.createMany (h : r.Valid) (c : CreateUserCommand) (number left : Nat) :
    ∃ es, Follows r es (Rehearsal.createMany c number left r).2 := by
  induction left generalizing r number with
  | zero => exact ⟨[], .refl h⟩
  | succ left ih =>
      rw [Rehearsal.createMany]
      generalize hc : ({ c with
        firstName := c.firstName ++ toString number, isAdmin := number % 3 = 0 } :
          CreateUserCommand).job = job
      obtain ⟨es, hes, -⟩ := h.serve (.ok job)
      split
      · rename_i a r' heq
        rw [heq] at hes
        obtain ⟨es', hes'⟩ := ih hes.valid (number + 1)
        exact ⟨_, hes.trans hes'⟩
      · exact ⟨_, hes⟩

theorem Valid.advance (h : r.Valid) (ms : Nat) : ∃ es, Follows r es (r.advance ms) := by
  obtain ⟨es, hes⟩ := h.passTo (r.now + ms)
  obtain ⟨es', hes'⟩ := hes.valid.settle
  exact ⟨_, hes.trans hes'⟩

theorem Valid.setGates (h : r.Valid) {gates : List Gate}
    (hheld : ∀ g ∈ gates, ∀ t, g.state = .holding t → ∃ g₀ ∈ r.gates, g₀.state = .holding t)
    (ha : gates.Pairwise Gate.Apart) : Follows r [] { r with gates } := by
  refine h.follows (.refl _) ?_ rfl rfl fun _ _ hx => Or.inl hx
  refine ⟨h.named, h.nodup, h.ended, ?_, ha, ?_⟩
  · intro g hg t ht
    obtain ⟨g₀, hg₀, hs⟩ := hheld g hg t ht
    exact h.held g₀ hg₀ t hs
  · intro t ht hne
    have hv := h.tasks t ht hne
    refine ⟨hv.called, hv.timed, ?_⟩
    intro g hg hs
    obtain ⟨g₀, hg₀, hs₀⟩ := hheld g hg t.id hs
    exact hv.gated g₀ hg₀ hs₀

theorem Valid.letGo (h : r.Valid) (ht : r.task? t.id = some t)
    (hfree : ∀ g ∈ r.gates, g.state ≠ .holding t.id) (hgated : t.wait.IsGated) :
    Follows r [] (r.setTask { t with wait := t.wait.opened }) := by
  have hv := h.tasks t (mem_of_task? ht).1 (by simp)
  have hstanding : t.wait.opened.standing = t.wait.standing := by
    cases hw : t.wait <;> rw [hw] at hgated <;> first | rfl | exact hgated.elim
  have hx : Took r t.id [] (r, { t with wait := t.wait.opened }) :=
    { toBeside := .refl h.apart
      named := rfl
      valid :=
        { called := by
            intro hc
            refine hv.called (Or.inl ?_)
            cases hw : t.wait with
            | before => rfl
            | after reply => simp [hw, Wait.opened] at hc
            | _ =>
                rw [hw] at hgated
                exact hgated.elim
          timed := by
            refine fun _ hd => hv.timed ?_ hd
            intro hw
            rw [hw] at hgated
            exact hgated
          gated := fun g hg hs => absurd hs (hfree g hg) }
      run := by
        rw [setTask_eq_self]
        · exact .refl _
        · simp only [system, ht, Option.map_some, Task.process, hstanding] }
  exact hx.follows h ht

theorem Valid.free_of_gate (h : r.Valid) {g : Gate} (hg : g ∈ r.gates)
    (hs : g.state = .holding id) :
    ∀ g' ∈ r.gates.filter (·.name ≠ g.name), g'.state ≠ .holding id := by
  intro g' hg' hs'
  obtain ⟨hmem, hname⟩ := List.mem_filter.mp hg'
  have hne : g ≠ g' := by
    rintro rfl
    simp at hname
  have hsymm : Std.Symm Gate.Apart := ⟨fun a b hab t hb ha => hab t ha hb⟩
  exact h.apart.forall hg hmem hne id hs hs'

theorem Valid.release (h : r.Valid) (name : String) :
    ∃ es, Follows r es (r.release name).2 := by
  rw [Rehearsal.release]
  cases hg : r.gates.find? (·.name = name) with
  | none => exact ⟨[], .refl h⟩
  | some g =>
      have hmem : g ∈ r.gates := List.mem_of_find?_eq_some hg
      obtain rfl : g.name = name := by simpa using List.find?_some hg
      have hgates : Follows r [] { r with gates := r.gates.filter (·.name ≠ g.name) } :=
        h.setGates (fun g' hg' t ht => ⟨g', (List.mem_filter.mp hg').1, ht⟩)
          (h.apart.sublist List.filter_sublist)
      dsimp only
      split
      · exact ⟨_, hgates⟩
      · exact ⟨_, hgates⟩
      · rename_i id hs
        split
        · exact ⟨_, hgates⟩
        · rename_i t ht
          obtain rfl := (mem_of_task? ht).2
          have hgated := (h.tasks t (mem_of_task? ht).1 (by simp)).gated g hmem hs
          have hfree := h.free_of_gate hmem hs
          have hset := hgates.valid.letGo ht hfree hgated
          have hwake := hset.valid.idle r.now (r.ready ++ [t.id]) (List.Subset.refl _) r.nextTimer
            r.faults r.saved r.trace
          obtain ⟨es, hes⟩ := hwake.valid.settle
          exact ⟨_, hgates.trans (hset.trans (hwake.trans hes))⟩

theorem system_drop (r : Rehearsal) (id : TaskId) :
    (r.drop id).system = r.system.setTask id none :=
  system_finish (r.desert id) id (.ok .done)

theorem task?_drop {u : TaskId} (hu : u ≠ id) : (r.drop id).task? u = r.task? u := by
  have hfinish := task?_finish r id (.ok .done) u
  rw [if_neg hu] at hfinish
  exact hfinish

theorem Valid.drop (h : r.Valid) (ht : r.task? id = some t) : (r.drop id).ValidBut none := by
  have hbut := ((Beside.refl h.apart).desert id).validBut h.toValidBut (h.lt_nextTask ht)
  have hfinish := hbut.finish (h.lt_nextTask ht) (.ok .done)
  exact ⟨hfinish.named, hfinish.nodup, h.ended, hfinish.held, hfinish.apart, hfinish.tasks⟩

theorem Valid.dropped (h : r.Valid) (ht : r.task? id = some t) (hf : t.stage.fenced? = none) :
    Follows r [.cancelled id] (r.drop id) := by
  have htask : r.system.tasks id = some t.process := by
    simp only [system, ht, Option.map_some]
  have hstep : Step r.wiring r.mint r.system [.cancelled id] (r.drop id).system := by
    rw [system_drop, ← cancel_of_free (p := t.process) hf]
    exact .cancel htask
  exact h.follows (.single hstep) (h.drop ht) rfl rfl fun _ _ hx => Or.inl hx

theorem Valid.dropped_fenced (h : r.Valid) (ht : r.task? id = some t) {user : Uuid}
    (hf : t.stage.fenced? = some user) :
    Follows r [.cancelled id] (({ r.drop id with
      fences := (r.fences.abandon user id).2 } : Rehearsal).grant
        (r.fences.abandon user id).1) := by
  have htask : r.system.tasks id = some t.process := by
    simp only [system, ht, Option.map_some]
  have hdrop : ValidBut none { r.drop id with fences := (r.fences.abandon user id).2 } := by
    have hd := h.drop ht
    exact ⟨hd.named, hd.nodup, hd.ended, hd.held, hd.apart, hd.tasks⟩
  have hvalid := hdrop.grant (r.fences.abandon user id).1 (by
    intro u x hu hx
    obtain ⟨hne, hawaits⟩ := h.orderly.awaited_of_abandon u hu
    exact wait_eq_fence ((task?_drop hne).symm.trans hx) hawaits)
  have hstep : Step r.wiring r.mint r.system [.cancelled id] (({ r.drop id with
      fences := (r.fences.abandon user id).2 } : Rehearsal).grant
        (r.fences.abandon user id).1).system := by
    have hsystem : system { r.drop id with fences := (r.fences.abandon user id).2 } =
        { r.system with fences := (r.fences.abandon user id).2 }.setTask id none :=
      congrArg (fun s : System => { s with fences := (r.fences.abandon user id).2 })
        (r.system_drop id)
    have hcancel : Step r.wiring r.mint r.system [.cancelled id]
        (r.system.cancel id t.process) :=
      .cancel htask
    rw [cancel_of_fenced (p := t.process) hf] at hcancel
    rw [system_grant, hsystem]
    exact hcancel
  obtain ⟨tasks, ready, hgrant⟩ :=
    grant_eq { r.drop id with fences := (r.fences.abandon user id).2 }
      (r.fences.abandon user id).1
  refine h.follows (.single hstep) hvalid ?_ ?_ ?_
  · rw [hgrant]
    rfl
  · rw [hgrant]
    rfl
  · rw [hgrant]
    exact fun _ _ hx => Or.inl hx

theorem Valid.cancel (h : r.Valid) (id : TaskId) : ∃ es, Follows r es (r.cancel id) := by
  rw [Rehearsal.cancel]
  cases ht : r.task? id with
  | none => exact ⟨[], .refl h⟩
  | some t =>
      dsimp only
      cases hf : t.stage.fenced? with
      | none =>
          have hdrop := h.dropped ht hf
          obtain ⟨es, hes⟩ := hdrop.valid.settle
          exact ⟨_, hdrop.trans hes⟩
      | some user =>
          have hdrop := h.dropped_fenced ht hf
          obtain ⟨es, hes⟩ := hdrop.valid.settle
          exact ⟨_, hdrop.trans hes⟩

theorem Valid.setEntry (h : r.Valid) (key : String) (bytes : List UInt8) (lifetime : Nat) :
    Follows r [.meddled key] { r with cache := r.cache.set entryClock key bytes lifetime } :=
  h.follows (.single (.meddle key bytes lifetime))
    ⟨h.named, h.nodup, h.ended, h.held, h.apart, h.tasks⟩ rfl rfl fun _ _ hx => Or.inl hx

theorem Valid.removeEntry (h : r.Valid) (key : String) :
    Follows r [.evicted key] { r with cache := r.cache.remove key } :=
  h.follows (.single (.evict key)) ⟨h.named, h.nodup, h.ended, h.held, h.apart, h.tasks⟩ rfl rfl
    fun _ _ hx => Or.inl hx

theorem Valid.setGate (h : r.Valid) (name point : String) :
    Follows r [] { r with gates := r.gates ++ [{ name, point }] } := by
  apply h.setGates
  · intro g hg t ht
    rcases List.mem_append.mp hg with hg | hg
    · exact ⟨g, hg, ht⟩
    · rw [List.mem_singleton.mp hg] at ht
      cases ht
  · rw [List.pairwise_append]
    refine ⟨h.apart, List.pairwise_singleton _ _, ?_⟩
    intro g _ g' hg' t _
    rw [List.mem_singleton.mp hg']
    simp

/-- What a script asks of a rehearsal. -/
inductive Order
  | start (j : Except UserError Job)
  | serve (j : Except UserError Job)
  | join (id : TaskId)
  | cancel (id : TaskId)
  | createMany (c : CreateUserCommand) (count : Nat)
  | advance (ms : Nat)
  | setGate (name point : String)
  | release (name : String)
  | setFault (f : ScriptedFault)
  | clearFaults
  | setEntry (key : String) (bytes : List UInt8) (lifetime : Nat)
  | removeEntry (key : String)
  | takeTrace

/-- Carries out an order, which may take the reply of a task. -/
def obey (r : Rehearsal) : Order → Option (TaskId × StoreReply) × Rehearsal
  | .start j => (none, (r.start j).2)
  | .serve j => ((r.serve j).1.map (r.nextTask, ·), (r.serve j).2)
  | .join id => ((r.join id).1.map (id, ·), (r.join id).2)
  | .cancel id => (none, r.cancel id)
  | .createMany c count => (none, (r.createMany c 0 count).2)
  | .advance ms => (none, r.advance ms)
  | .setGate name point => (none, { r with gates := r.gates ++ [{ name, point }] })
  | .release name => (none, (r.release name).2)
  | .setFault f => (none, { r with faults := r.faults ++ [f] })
  | .clearFaults => (none, { r with faults := [] })
  | .setEntry key bytes lifetime =>
    (none, { r with cache := r.cache.set entryClock key bytes lifetime })
  | .removeEntry key => (none, { r with cache := r.cache.remove key })
  | .takeTrace => (none, r.takeTrace.2)

/-- Carries out a script; the replies are those that its orders take. -/
def obeyAll (r : Rehearsal) : List Order → List (TaskId × StoreReply) × Rehearsal
  | [] => ([], r)
  | o :: script =>
    let (reply, r) := r.obey o
    let (replies, r) := r.obeyAll script
    (reply.toList ++ replies, r)

theorem Valid.obey (h : r.Valid) (o : Order) : ∃ es, Follows r es (r.obey o).2 ∧
    ∀ x, (r.obey o).1 = some x → r.Ended es x.1 x.2 := by
  have hidle := h.idle r.now r.ready (List.Subset.refl _) r.nextTimer
  cases o with
  | start j =>
      obtain ⟨es, hes⟩ := h.start j
      exact ⟨_, hes, nofun⟩
  | serve j =>
      obtain ⟨es, hes, hended⟩ := h.serve j
      refine ⟨_, hes, fun x hx => ?_⟩
      obtain ⟨a, ha, rfl⟩ := Option.map_eq_some_iff.mp hx
      exact hended a ha
  | join id =>
      obtain ⟨es, hes, hended⟩ := h.join id
      refine ⟨_, hes, fun x hx => ?_⟩
      obtain ⟨a, ha, rfl⟩ := Option.map_eq_some_iff.mp hx
      exact hended a ha
  | cancel id =>
      obtain ⟨es, hes⟩ := h.cancel id
      exact ⟨_, hes, nofun⟩
  | createMany c count =>
      obtain ⟨es, hes⟩ := h.createMany c 0 count
      exact ⟨_, hes, nofun⟩
  | advance ms =>
      obtain ⟨es, hes⟩ := h.advance ms
      exact ⟨_, hes, nofun⟩
  | setGate name point => exact ⟨_, h.setGate name point, nofun⟩
  | release name =>
      obtain ⟨es, hes⟩ := h.release name
      exact ⟨_, hes, nofun⟩
  | setFault f => exact ⟨_, hidle (r.faults ++ [f]) r.saved r.trace, nofun⟩
  | clearFaults => exact ⟨_, hidle [] r.saved r.trace, nofun⟩
  | setEntry key bytes lifetime => exact ⟨_, h.setEntry key bytes lifetime, nofun⟩
  | removeEntry key => exact ⟨_, h.removeEntry key, nofun⟩
  | takeTrace => exact ⟨_, hidle r.faults r.saved [], nofun⟩

theorem Valid.obeyAll (h : r.Valid) (script : List Order) :
    ∃ es, Follows r es (r.obeyAll script).2 ∧
      ∀ x ∈ (r.obeyAll script).1, r.Ended es x.1 x.2 := by
  induction script generalizing r with
  | nil => exact ⟨[], .refl h, nofun⟩
  | cons o script ih =>
      obtain ⟨es, hes, hfirst⟩ := h.obey o
      obtain ⟨es', hes', hrest⟩ := ih hes.valid
      refine ⟨es ++ es', hes.trans hes', fun x hx => ?_⟩
      rcases List.mem_append.mp hx with hx | hx
      · exact (hfirst x (Option.mem_toList.mp hx)).mono es'
      · exact hes.ended (hrest x hx)

/-- Whatever the script, a rehearsal shows a course of steps of its system, and the replies that are
taken are those with which the tasks have ended in that. -/
theorem run_obeyAll (w : Wiring) (mint : Mint) (d : Directory) (c : MemoryCache)
    (script : List Order) : ∃ replies r' es,
      obeyAll { wiring := w, mint, store := d, cache := c } script = (replies, r') ∧
        Run w mint { store := d, cache := c } es r'.system ∧
          ∀ x ∈ replies,
            .returned x.1 x.2 ∈ es ∨ ∃ e, x.2 = .error e ∧ .rejected x.1 e ∈ es := by
  obtain ⟨es, hes, hended⟩ := (valid_start w mint d c).obeyAll script
  refine ⟨_, _, es, rfl, hes.run, fun x hx => ?_⟩
  exact (hended x hx).resolve_left (by simp)

end Rehearsal

end UserDirectory
