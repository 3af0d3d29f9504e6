import UserDirectory.Proofs.Rehearsal.System

namespace UserDirectory

open UserDirectory.System

theorem Task.Valid.timeout {w : Wiring} {gates gates' : List Gate} {t : Task} {reply : Reply}
    (h : t.Valid w gates) (hw : t.wait ≠ .turn) (hg : ∀ g ∈ gates', g.state ≠ .holding t.id) :
    Task.Valid w gates' { t with wait := .replied reply } where
  called := by simp
  timed := fun _ hd => h.timed hw hd
  gated := fun g hmem hs => absurd hs (hg g hmem)

namespace Rehearsal

variable {r r' r'' : Rehearsal} {t : Task} {id : TaskId} {o : Option TaskId}
  {es es' : List Event} {gates gates' : List Gate} {point name : String}

theorem held_of_takeGate (h : takeGate point id gates = some (name, gates')) {g : Gate}
    (hg : g ∈ gates') {u : TaskId} (hu : g.state = .holding u) :
    u = id ∨ ∃ g₀ ∈ gates, g₀.state = .holding u := by
  induction gates generalizing gates' with
  | nil => cases h
  | cons x rest ih =>
      rw [takeGate] at h
      split at h
      · cases h
        rcases List.mem_cons.mp hg with rfl | hg
        · cases hu
          exact Or.inl rfl
        · exact Or.inr ⟨g, List.mem_cons_of_mem _ hg, hu⟩
      · obtain ⟨⟨n, gs⟩, hrest, heq⟩ := Option.map_eq_some_iff.mp h
        cases heq
        rcases List.mem_cons.mp hg with rfl | hg
        · exact Or.inr ⟨g, List.mem_cons_self, hu⟩
        · rcases ih hrest hg with hid | ⟨g₀, hg₀, hs⟩
          · exact Or.inl hid
          · exact Or.inr ⟨g₀, List.mem_cons_of_mem _ hg₀, hs⟩

theorem apart_takeGate (h : takeGate point id gates = some (name, gates'))
    (hfree : ∀ g ∈ gates, g.state ≠ .holding id) (ha : gates.Pairwise Gate.Apart) :
    gates'.Pairwise Gate.Apart := by
  induction gates generalizing gates' with
  | nil => cases h
  | cons x rest ih =>
      obtain ⟨hx, hrest⟩ := List.pairwise_cons.mp ha
      rw [takeGate] at h
      split at h
      · cases h
        refine List.pairwise_cons.mpr ⟨?_, hrest⟩
        rintro g hg u ⟨⟩
        exact hfree g (List.mem_cons_of_mem _ hg)
      · obtain ⟨⟨n, gs⟩, htake, heq⟩ := Option.map_eq_some_iff.mp h
        cases heq
        refine List.pairwise_cons.mpr
          ⟨?_, ih htake (List.forall_mem_of_forall_mem_cons hfree) hrest⟩
        intro g hg u hu hs
        rcases held_of_takeGate htake hg hs with rfl | ⟨g₀, hg₀, hs₀⟩
        · exact hfree x List.mem_cons_self hu
        · exact hx g₀ hg₀ u hu hs₀

/-- Whether a rehearsal has the tasks of another, and only one of them is held by other gates. -/
structure Beside (id : TaskId) (r r' : Rehearsal) : Prop where
  wiring : r'.wiring = r.wiring
  mint : r'.mint = r.mint
  tasks : r'.tasks = r.tasks
  nextTask : r'.nextTask = r.nextTask
  finished : r'.finished = r.finished
  held : ∀ g ∈ r'.gates, ∀ t, g.state = .holding t →
    t = id ∨ ∃ g₀ ∈ r.gates, g₀.state = .holding t
  apart : r'.gates.Pairwise Gate.Apart

theorem Beside.refl (ha : r.gates.Pairwise Gate.Apart) : Beside id r r :=
  ⟨rfl, rfl, rfl, rfl, rfl, fun g hg _ hs => Or.inr ⟨g, hg, hs⟩, ha⟩

theorem Beside.trans (h : Beside id r r') (h' : Beside id r' r'') : Beside id r r'' where
  wiring := h'.wiring.trans h.wiring
  mint := h'.mint.trans h.mint
  tasks := h'.tasks.trans h.tasks
  nextTask := h'.nextTask.trans h.nextTask
  finished := h'.finished.trans h.finished
  held := by
    intro g hg u hu
    rcases h'.held g hg u hu with hid | ⟨g', hg', hs'⟩
    · exact Or.inl hid
    · exact h.held g' hg' u hs'
  apart := h'.apart

theorem Beside.frame (h : Beside id r r') (store : Directory) (cache : MemoryCache)
    (fences : Fences) (nextTimer : Nat) (faults : List ScriptedFault) (saved : List User)
    (trace : List String) :
    Beside id r { r' with store, cache, fences, nextTimer, faults, saved, trace } :=
  ⟨h.wiring, h.mint, h.tasks, h.nextTask, h.finished, h.held, h.apart⟩

theorem Beside.desert (h : Beside id r r') (u : TaskId) : Beside id r (r'.desert u) where
  wiring := h.wiring
  mint := h.mint
  tasks := h.tasks
  nextTask := h.nextTask
  finished := h.finished
  held := by
    intro g hg v hv
    obtain ⟨g', hg', rfl⟩ := List.mem_map.mp hg
    split at hv
    · cases hv
    · exact h.held g' hg' v hv
  apart := by
    refine List.Pairwise.map _ ?_ h.apart
    intro g g' ha v hv
    split at hv
    · cases hv
    · split
      · simp
      · exact ha v hv

theorem ne_holding_of_mem_desert {g : Gate} (hg : g ∈ (r.desert id).gates) :
    g.state ≠ .holding id := by
  obtain ⟨g', -, rfl⟩ := List.mem_map.mp hg
  split
  · simp
  · assumption

theorem Beside.validBut (hb : Beside id r r') (h : r.ValidBut none) (hid : id < r.nextTask) :
    r'.ValidBut (some id) where
  named := by
    rw [hb.tasks, hb.nextTask]
    exact h.named
  nodup := by
    rw [hb.tasks]
    exact h.nodup
  ended := by
    rw [hb.finished, hb.nextTask]
    exact h.ended
  held := by
    intro g hg u hu
    rw [hb.nextTask]
    rcases hb.held g hg u hu with rfl | ⟨g₀, hg₀, hs⟩
    · exact hid
    · exact h.held g₀ hg₀ u hs
  apart := hb.apart
  tasks := by
    intro t ht hne
    rw [hb.tasks] at ht
    rw [hb.wiring]
    have hv := h.tasks t ht (by simp)
    refine ⟨hv.called, hv.timed, ?_⟩
    intro g hg hs
    rcases hb.held g hg t.id hs with rfl | ⟨g₀, hg₀, hs₀⟩
    · exact absurd rfl hne
    · exact hv.gated g₀ hg₀ hs₀

theorem pass_cases (point : String) (ha : r.gates.Pairwise Gate.Apart)
    (hfree : ∀ g ∈ r.gates, g.state ≠ .holding id) :
    r.pass point id = (true, r) ∨
      ∃ r', r.pass point id = (false, r') ∧ r'.system = r.system ∧ Beside id r r' := by
  rw [pass]
  rcases htake : takeGate point id r.gates with _ | ⟨name, gates⟩
  · exact Or.inl rfl
  · refine Or.inr ⟨_, rfl, rfl, ?_⟩
    exact
      { wiring := rfl
        mint := rfl
        tasks := rfl
        nextTask := rfl
        finished := rfl
        held := fun g hg u hu => held_of_takeGate htake hg hu
        apart := apart_takeGate htake hfree ha }

/-- Whether a task takes a course of steps that leads to a task and a rehearsal around it. -/
structure Took (r : Rehearsal) (id : TaskId) (es : List Event) (x : Rehearsal × Task) : Prop
    extends Beside id r x.1 where
  named : x.2.id = id
  valid : x.2.Valid r.wiring x.1.gates
  run : Run r.wiring r.mint r.system es (x.1.system.setTask id (some x.2.process))

theorem Valid.lt_nextTask (h : r.Valid) (ht : r.task? id = some t) : id < r.nextTask := by
  obtain ⟨hmem, rfl⟩ := mem_of_task? ht
  exact h.named t hmem

theorem Took.follows {x : Rehearsal × Task} (hx : Took r id es x) (h : r.Valid)
    (ht : r.task? id = some t) : Follows r es (x.1.setTask x.2) := by
  have hsystem : (x.1.setTask x.2).system = x.1.system.setTask id (some x.2.process) := by
    rw [← hx.named]
    refine system_setTask ?_
    rw [task?, hx.tasks, hx.named]
    rw [task?] at ht
    simp [ht]
  have hrun : Run r.wiring r.mint r.system es (x.1.setTask x.2).system := by
    rw [hsystem]
    exact hx.run
  have hbut : x.1.ValidBut (some x.2.id) := by
    rw [hx.named]
    exact hx.toBeside.validBut h.toValidBut (h.lt_nextTask ht)
  have hvalid : x.2.Valid x.1.wiring x.1.gates := by
    rw [hx.wiring]
    exact hx.valid
  refine h.follows hrun (hbut.setTask hvalid) hx.wiring hx.mint ?_
  intro u a ha
  refine Or.inl ?_
  rw [← hx.finished]
  exact ha

theorem setTask_setTask (s : System) (t : TaskId) (p q : Option Process) :
    (s.setTask t p).setTask t q = s.setTask t q := by
  refine ext_tasks rfl rfl rfl rfl rfl ?_
  intro u
  simp only [tasks_setTask]
  split <;> rfl

theorem setTask_eq_self {s : System} {t : TaskId} {p : Option Process} (h : s.tasks t = p) :
    s.setTask t p = s := by
  refine ext_tasks rfl rfl rfl rfl rfl ?_
  intro u
  rw [tasks_setTask]
  split
  · subst u
    exact h.symm
  · rfl

theorem Took.suspend {w : Wait} (hx : Took r id es (r', { t with wait := w })) (hw : w ≠ .turn) :
    ∃ es', Took r id es' (r'.suspend t w) := by
  rw [Rehearsal.suspend]
  split
  · rename_i hlate
    have hsome : t.deadline.isSome = true := by
      cases hd : t.deadline with
      | none => simp [hd] at hlate
      | some d => rfl
    obtain ⟨q, hq⟩ := hx.valid.timed hw hsome
    have ht : (r'.system.setTask id (some ⟨t.stage, w.standing⟩)).tasks id =
        some ⟨t.stage, w.standing⟩ := by
      rw [tasks_setTask, if_pos rfl]
    have hstep : Step r.wiring r.mint (r'.system.setTask id (some ⟨t.stage, w.standing⟩))
        [.exchanged id q (.error .timeout)]
        ((r'.system.setTask id (some ⟨t.stage, w.standing⟩)).setTask id
          (some ⟨t.stage, .replied (.cache (.error .timeout))⟩)) :=
      .fail ht hq
    rw [setTask_setTask] at hstep
    refine ⟨es ++ [.exchanged id q (.error .timeout)], ?_⟩
    exact
      { toBeside := hx.toBeside.desert t.id
        named := hx.named
        valid := hx.valid.timeout hw fun g hg => ne_holding_of_mem_desert hg
        run := hx.run.step hstep }
  · split
    · refine ⟨es, ?_⟩
      exact
        { toBeside := hx.toBeside.frame _ _ _ _ _ _ _
          named := hx.named
          valid := ⟨hx.valid.called, hx.valid.timed, hx.valid.gated⟩
          run := hx.run }
    · exact ⟨es, hx⟩

/-- Whether a task of a rehearsal is about to ask for what its stage needs. -/
structure Asks (r : Rehearsal) (t : Task) : Prop where
  tasks : r.system.tasks t.id = some ⟨t.stage, .ready⟩
  apart : r.gates.Pairwise Gate.Apart
  free : ∀ g ∈ r.gates, g.state ≠ .holding t.id
  timed : t.deadline.isSome = true → ∃ q, t.stage.request r.wiring = .cache q

theorem Asks.replied (h : Asks r t) {reply : Reply} {e : Event} (hb : Beside t.id r r')
    (hgates : r'.gates = r.gates)
    (hs : Step r.wiring r.mint r.system [e]
      (r'.system.setTask t.id (some ⟨t.stage, .replied reply⟩))) :
    Took r t.id [e] (r', { t with wait := .replied reply }) where
  toBeside := hb
  named := rfl
  valid :=
    { called := by simp
      timed := fun _ hd => h.timed hd
      gated := by
        intro g hg hheld
        dsimp only at hg
        rw [hgates] at hg
        exact absurd hheld (h.free g hg) }
  run := .single hs

theorem Asks.kept (h : Asks r t) {w : Wait} (hb : Beside t.id r r')
    (hsystem : r'.system = r.system) (hw : w = .before ∨ w = .hang ∧ r'.gates = r.gates)
    (hq : ∀ id, t.stage.request r.wiring ≠ .fence id) :
    ∃ es, Took r t.id es (r'.suspend t w) := by
  have hready : w.standing = .ready := by
    rcases hw with rfl | ⟨rfl, -⟩ <;> rfl
  have hx : Took r t.id [] (r', { t with wait := w }) :=
    { toBeside := hb
      named := rfl
      valid :=
        { called := fun _ => hq
          timed := fun _ hd => h.timed hd
          gated := by
            intro g hg hheld
            rcases hw with rfl | ⟨rfl, hgates⟩
            · trivial
            · dsimp only at hg
              rw [hgates] at hg
              exact absurd hheld (h.free g hg) }
      run := by
        rw [hsystem, setTask_eq_self]
        · exact .refl _
        · rw [h.tasks, Task.process, hready] }
  refine hx.suspend ?_
  rcases hw with rfl | ⟨rfl, -⟩ <;> simp

theorem perform_cache (r : Rehearsal) (q : CacheRequest) :
    ∃ trace, r.perform (.cache q) = (.cache (r.cache.serve entryClock q).1,
      { r with cache := (r.cache.serve entryClock q).2, trace }) :=
  ⟨_, rfl⟩

theorem perform_store (r : Rehearsal) (q : StoreRequest) :
    ∃ saved trace, r.perform (.store q) = (.store (r.store.serve r.mint q).1,
      { r with store := (r.store.serve r.mint q).2, saved, trace }) :=
  ⟨_, _, rfl⟩

/-- A call is one step of the system; what may hold its reply back comes after it. -/
theorem Asks.perform (h : Asks r t) {q : Request} (hq : t.stage.request r.wiring = q)
    (hne : ∀ id, q ≠ .fence id) :
    ∃ e, Took r t.id [e] ((r.perform q).2, { t with wait := .replied (r.perform q).1 }) ∧
      (r.perform q).2.gates = r.gates := by
  cases q with
  | cache c =>
      obtain ⟨trace, heq⟩ := r.perform_cache c
      have hs : Step r.wiring r.mint r.system
          [.exchanged t.id c (r.cache.serve entryClock c).1]
          ({ r.system with cache := (r.cache.serve entryClock c).2 }.setTask t.id
            (some ⟨t.stage, .replied (.cache (r.cache.serve entryClock c).1)⟩)) :=
        .exchange h.tasks hq
      rw [heq]
      exact ⟨_, h.replied ((Beside.refl h.apart).frame _ _ _ _ _ _ _) rfl hs, rfl⟩
  | store c =>
      obtain ⟨saved, trace, heq⟩ := r.perform_store c
      have hs : Step r.wiring r.mint r.system [.served t.id c (r.store.serve r.mint c).1]
          ({ r.system with store := (r.store.serve r.mint c).2 }.setTask t.id
            (some ⟨t.stage, .replied (.store (r.store.serve r.mint c).1)⟩)) :=
        .serve h.tasks hq
      rw [heq]
      exact ⟨_, h.replied ((Beside.refl h.apart).frame _ _ _ _ _ _ _) rfl hs, rfl⟩
  | fence id => exact absurd rfl (hne id)

theorem Asks.call (h : Asks r t) {q : Request} (hq : t.stage.request r.wiring = q)
    (hne : ∀ id, q ≠ .fence id) : ∃ es, Took r t.id es (r.call t q) := by
  obtain ⟨e, hx, hgates⟩ := h.perform hq hne
  have hfree : ∀ g ∈ (r.perform q).2.gates, g.state ≠ .holding t.id := by
    rw [hgates]
    exact h.free
  simp only [Rehearsal.call]
  rcases pass_cases (Rehearsal.point q ++ ".after") hx.apart hfree with hp | ⟨r₂, hp, hs, hb⟩
  · rw [hp]
    exact ⟨_, hx⟩
  · rw [hp]
    have hafter : Took r t.id [e] (r₂, { t with wait := .after (r.perform q).1 }) :=
      { toBeside := hx.toBeside.trans hb
        named := rfl
        valid :=
          { called := by simp
            timed := fun _ hd => h.timed hd
            gated := fun _ _ _ => trivial }
        run := by
          rw [hs]
          exact hx.run }
    exact hafter.suspend (by simp)

theorem cacheReply_eq {m : FaultMode} {reply : CacheReply} (h : m.cacheReply = some reply) :
    ∃ e, reply = .error e := by
  cases m <;> cases h <;> exact ⟨_, rfl⟩

theorem kind_storeError (m : FaultMode) : m.storeError.kind ≠ .notFound := by
  cases m <;> decide

theorem Asks.fence (h : Asks r t) {user : Uuid} (hq : t.stage.request r.wiring = .fence user) :
    Took r t.id [] ({ r with fences := (r.fences.acquire user t.id).2 },
      { t with wait := if (r.fences.acquire user t.id).1 then .replied .granted else .fence }) where
  toBeside := (Beside.refl h.apart).frame _ _ _ _ _ _ _
  named := rfl
  valid :=
    { called := by
        intro hw
        dsimp only at hw
        split at hw <;> simp at hw
      timed := fun _ hd => h.timed hd
      gated := fun g hg hs => absurd hs (h.free g hg) }
  run := by
    have hs : Step r.wiring r.mint r.system []
        ({ r.system with fences := (r.fences.acquire user t.id).2 }.setTask t.id
          (some ⟨t.stage,
            if (r.fences.acquire user t.id).1 then .replied .granted else .queued⟩)) :=
      .ask h.tasks hq
    refine Eq.subst (motive := fun sd => Run _ _ _ _ (System.setTask _ _ (some ⟨_, sd⟩))) ?_
      (Run.single hs)
    split <;> rfl

theorem Asks.cacheFault (h : Asks r t) {q : CacheRequest}
    (hq : t.stage.request r.wiring = .cache q) (mode : FaultMode)
    (faults : List ScriptedFault) (trace : List String) :
    ∃ es, Took r t.id es
      (match mode.cacheReply with
      | some reply => ({ r with faults, trace }, { t with wait := .replied (.cache reply) })
      | none => Rehearsal.suspend { r with faults, trace } t .hang) := by
  have hb : Beside t.id r { r with faults, trace } :=
    (Beside.refl h.apart).frame _ _ _ _ _ _ _
  cases hm : mode.cacheReply with
  | none =>
      refine h.kept hb rfl (Or.inr ⟨rfl, rfl⟩) ?_
      simp [hq]
  | some reply =>
      obtain ⟨e, rfl⟩ := cacheReply_eq hm
      exact ⟨_, h.replied hb rfl (.fail h.tasks hq)⟩

theorem Asks.storeFault (h : Asks r t) {q : StoreRequest}
    (hq : t.stage.request r.wiring = .store q) (mode : FaultMode)
    (faults : List ScriptedFault) (trace : List String) :
    ∃ es, Took r t.id es ({ r with faults, trace },
      { t with wait := .replied (.store (.error mode.storeError)) }) := by
  have hb : Beside t.id r { r with faults, trace } :=
    (Beside.refl h.apart).frame _ _ _ _ _ _ _
  exact ⟨_, h.replied hb rfl (.refuse h.tasks hq (kind_storeError mode))⟩

theorem Asks.pass (h : Asks r t) {q : Request} (hq : t.stage.request r.wiring = q)
    (hne : ∀ id, q ≠ .fence id) (point : String) :
    ∃ es, Took r t.id es
      (if (r.pass point t.id).1 then (r.pass point t.id).2.call t q
        else (r.pass point t.id).2.suspend t .before) := by
  rcases pass_cases point h.apart h.free with hp | ⟨r', hp, hs, hb⟩
  · rw [hp]
    exact h.call hq hne
  · rw [hp]
    refine h.kept hb hs (Or.inl rfl) ?_
    rw [hq]
    exact hne

theorem allot_eq (r : Rehearsal) (t : Task) :
    ∃ deadline timer, r.allot t = { t with deadline, timer } ∧
      (deadline.isSome = true → ∃ q, t.stage.request r.wiring = .cache q) := by
  rw [allot]
  cases hq : t.stage.request r.wiring with
  | cache q =>
      dsimp only
      split
      · exact ⟨t.deadline, t.timer, rfl, fun _ => ⟨q, rfl⟩⟩
      · exact ⟨_, _, rfl, fun _ => ⟨q, rfl⟩⟩
  | store q => exact ⟨none, none, rfl, by simp⟩
  | fence id => exact ⟨none, none, rfl, by simp⟩

theorem Valid.asks (h : r.Valid) (ht : r.task? t.id = some t)
    (hready : t.wait.standing = .ready) (hgated : ¬ t.wait.IsGated) {deadline timer : Option Nat}
    (htimed : deadline.isSome = true → ∃ q, t.stage.request r.wiring = .cache q) :
    Asks r { t with deadline, timer } where
  tasks := by
    simp only [system, ht, Option.map_some, Task.process, hready]
  apart := h.apart
  free := by
    intro g hg hs
    exact hgated ((h.tasks t (mem_of_task? ht).1 (by simp)).gated g hg hs)
  timed := htimed

theorem Valid.took_ask (h : r.Valid) (ht : r.task? t.id = some t) (hw : t.wait = .turn) :
    ∃ es, Took r t.id es (r.ask t) := by
  obtain ⟨deadline, timer, hallot, htimed⟩ := r.allot_eq t
  have hasks : Asks r { t with deadline, timer } :=
    h.asks ht (by rw [hw]; rfl) (by rw [hw]; exact id) htimed
  rw [Rehearsal.ask, hallot]
  dsimp only
  cases hq : t.stage.request r.wiring with
  | fence user => exact ⟨_, hasks.fence hq⟩
  | cache c =>
      dsimp only
      split
      · exact hasks.cacheFault hq _ _ _
      · exact hasks.pass hq (by simp) _
  | store c =>
      dsimp only
      split
      · exact hasks.storeFault hq _ _ _
      · exact hasks.pass hq (by simp) _

theorem Valid.took_call (h : r.Valid) (ht : r.task? t.id = some t) (hw : t.wait = .call) :
    ∃ es, Took r t.id es (r.call t (t.stage.request r.wiring)) := by
  have hvalid := h.tasks t (mem_of_task? ht).1 (by simp)
  have hasks : Asks r t :=
    h.asks ht (by rw [hw]; rfl) (by rw [hw]; exact id) (hvalid.timed (by simp [hw]))
  exact hasks.call rfl (hvalid.called (Or.inr hw))

theorem log_eq (r : Rehearsal) (events : List LogEvent) :
    ∃ trace, r.log events = { r with trace } := by
  rw [log]
  induction events generalizing r with
  | nil => exact ⟨r.trace, rfl⟩
  | cons e rest ih =>
      obtain ⟨trace, heq⟩ := ih (r.note e.render)
      exact ⟨trace, heq⟩

theorem system_proceed (ht : r.task? t.id ≠ none) (n : Next) :
    (r.proceed t n).system = r.system.setTask t.id n.process? := by
  cases n with
  | stage s => exact system_setTask (t := { t with stage := s, wait := .turn }) ht
  | finished reply => exact system_finish r t.id reply

theorem ValidBut.proceed (h : r.ValidBut none) (ht : r.task? t.id = some t)
    (hgated : ¬ t.wait.IsGated) (n : Next) : (r.proceed t n).ValidBut none := by
  obtain ⟨hmem, -⟩ := mem_of_task? ht
  cases n with
  | stage s =>
      refine ValidBut.setTask (t := { t with stage := s, wait := .turn }) h.but ?_
      exact
        { called := by simp
          timed := by simp
          gated := fun g hg hs =>
            absurd ((h.tasks t hmem (by simp)).gated g hg hs) hgated }
  | finished reply => exact h.but.finish (h.named t hmem) reply

theorem grant_eq (r : Rehearsal) (o : Option TaskId) :
    ∃ tasks ready, r.grant o = { r with tasks, ready } := by
  cases o with
  | none => exact ⟨r.tasks, r.ready, rfl⟩
  | some id =>
      simp only [Rehearsal.grant]
      split
      · exact ⟨_, _, rfl⟩
      · exact ⟨r.tasks, r.ready, rfl⟩

theorem spawn?_eq (r : Rehearsal) (o : Option Stage) :
    ∃ tasks ready nextTask, r.spawn? o = { r with tasks, ready, nextTask } := by
  cases o with
  | none => exact ⟨r.tasks, r.ready, r.nextTask, rfl⟩
  | some s => exact ⟨_, _, _, rfl⟩

theorem proceed_eq (r : Rehearsal) (t : Task) (n : Next) :
    ∃ tasks finished, r.proceed t n = { r with tasks, finished } ∧
      ∀ id a, (id, a) ∈ finished → (id, a) ∈ r.finished ∨ .returned id a ∈ n.events t.id := by
  cases n with
  | stage s => exact ⟨_, r.finished, rfl, fun _ _ hx => Or.inl hx⟩
  | finished reply =>
      refine ⟨_, _, rfl, ?_⟩
      intro id a hx
      rcases List.mem_cons.mp hx with hx | hx
      · cases hx
        exact Or.inr (by simp [Next.events])
      · exact Or.inl hx

theorem task?_proceed {u : TaskId} (hu : u ≠ t.id) (n : Next) :
    (r.proceed t n).task? u = r.task? u := by
  cases n with
  | stage s =>
      rw [Rehearsal.proceed, task?_setTask]
      rcases hx : r.task? u with _ | x
      · rfl
      · rw [Option.map_some, if_neg ((mem_of_task? hx).2 ▸ hu)]
  | finished reply => rw [Rehearsal.proceed, task?_finish, if_neg hu]

theorem wait_eq_fence {user : Uuid} (ht : r.task? id = some t)
    (h : r.system.awaited? id = some user) : t.wait = .fence := by
  obtain ⟨st, hst, -⟩ := awaited?_eq_some h
  simp only [system, ht, Option.map_some, Option.some.injEq] at hst
  have hqueued : t.wait.standing = .queued := congrArg Process.standing hst
  cases hw : t.wait with
  | fence => rfl
  | _ => simp [hw, Wait.standing] at hqueued

theorem ValidBut.log (h : r.ValidBut o) (fences : Fences) (events : List LogEvent) :
    (Rehearsal.log { r with fences } events).ValidBut o := by
  obtain ⟨trace, heq⟩ := log_eq { r with fences } events
  rw [heq]
  exact ⟨h.named, h.nodup, h.ended, h.held, h.apart, h.tasks⟩

theorem task?_log (r : Rehearsal) (events : List LogEvent) (id : TaskId) :
    (r.log events).task? id = r.task? id := by
  obtain ⟨trace, heq⟩ := log_eq r events
  rw [heq]
  rfl

theorem system_log (r : Rehearsal) (events : List LogEvent) :
    (r.log events).system = r.system := by
  obtain ⟨trace, heq⟩ := log_eq r events
  rw [heq]
  rfl

theorem turn_eq (r : Rehearsal) (t : Task) (u : Turn) :
    ∃ fences trace tasks finished ready nextTask,
      r.turn t u = { r with fences, trace, tasks, finished, ready, nextTask } ∧
      ∀ id a, (id, a) ∈ finished → (id, a) ∈ r.finished ∨ .returned id a ∈ u.next.events t.id := by
  obtain ⟨trace, hlog⟩ := log_eq { r with fences := u.fences } u.logs
  rw [Rehearsal.turn, hlog]
  obtain ⟨tasks₁, finished, hproceed, hfinished⟩ :=
    proceed_eq { r with fences := u.fences, trace } t u.next
  rw [hproceed]
  obtain ⟨tasks₂, ready₂, hgrant⟩ := grant_eq
    { r with fences := u.fences, trace, tasks := tasks₁, finished } u.woken
  rw [hgrant]
  obtain ⟨tasks, ready, nextTask, hspawn⟩ := spawn?_eq
    { r with fences := u.fences, trace, tasks := tasks₂, finished, ready := ready₂ } u.spawned
  exact ⟨_, _, _, _, _, _, hspawn, hfinished⟩

section Turn

variable {v : Turn}

theorem ValidBut.pass_on (h : r.ValidBut none) (ht : r.task? t.id = some t)
    (hgated : ¬ t.wait.IsGated)
    (hwoken : ∀ id, v.woken = some id →
      id ≠ t.id ∧ ∃ user, r.system.awaited? id = some user) :
    (((Rehearsal.log { r with fences := v.fences } v.logs).proceed t v.next).grant
      v.woken).ValidBut none := by
  refine ((h.log v.fences v.logs).proceed ?_ hgated v.next).grant _ ?_
  · rw [task?_log]
    exact ht
  · intro id x hid hx
    obtain ⟨hne, user, hawaits⟩ := hwoken id hid
    rw [task?_proceed hne, task?_log] at hx
    exact wait_eq_fence (r := r) hx hawaits

theorem ValidBut.turn (h : r.ValidBut none) (ht : r.task? t.id = some t)
    (hgated : ¬ t.wait.IsGated)
    (hwoken : ∀ id, v.woken = some id →
      id ≠ t.id ∧ ∃ user, r.system.awaited? id = some user) :
    (r.turn t v).ValidBut none :=
  (h.pass_on ht hgated hwoken).spawn? v.spawned

theorem ValidBut.system_turn (h : r.ValidBut none) (ht : r.task? t.id = some t)
    (hgated : ¬ t.wait.IsGated)
    (hwoken : ∀ id, v.woken = some id →
      id ≠ t.id ∧ ∃ user, r.system.awaited? id = some user) :
    (r.turn t v).system =
      (({ r.system with fences := v.fences }.setTask t.id v.next.process?).grant
        v.woken).spawn? v.spawned := by
  have htask : (Rehearsal.log { r with fences := v.fences } v.logs).task? t.id ≠ none := by
    rw [task?_log]
    exact ne_of_eq_of_ne ht (by simp)
  rw [Rehearsal.turn, (h.pass_on ht hgated hwoken).system_spawn?, system_grant,
    system_proceed htask, system_log]
  rfl

theorem Valid.turn (h : r.Valid) {reply : Reply} (ht : r.task? t.id = some t)
    (hw : t.wait = .replied reply) (hv : t.stage.turn r.wiring r.fences reply = v) :
    Follows r (.turned t.id t.stage reply :: v.next.events t.id) (r.turn t v) := by
  subst hv
  have htask : r.system.tasks t.id = some ⟨t.stage, .replied reply⟩ := by
    simp only [system, ht, Option.map_some, Task.process, hw, Wait.standing]
  have hgated : ¬ t.wait.IsGated := by
    rw [hw]
    exact not_false
  have hwoken : ∀ id, (t.stage.turn r.wiring r.fences reply).woken = some id →
      id ≠ t.id ∧ ∃ user, r.system.awaited? id = some user :=
    fun id hid => h.orderly.tidy.awaited_of_turn htask hid
  have hstep : Step r.wiring r.mint r.system
      (.turned t.id t.stage reply :: (t.stage.turn r.wiring r.fences reply).next.events t.id)
      (r.turn t (t.stage.turn r.wiring r.fences reply)).system := by
    rw [h.toValidBut.system_turn ht hgated hwoken]
    exact .turn htask
  obtain ⟨fences, trace, tasks, finished, ready, nextTask, heq, hfinished⟩ :=
    r.turn_eq t (t.stage.turn r.wiring r.fences reply)
  refine h.follows (.single hstep) (h.toValidBut.turn ht hgated hwoken) (by rw [heq])
    (by rw [heq]) ?_
  intro id a ha
  rw [heq] at ha
  rcases hfinished id a ha with ha | ha
  · exact Or.inl ha
  · exact Or.inr (Or.inl (List.mem_cons_of_mem _ ha))

end Turn

/-- Whatever a task does when it runs is a course of steps. -/
theorem Valid.advanceTask (h : r.Valid) (ht : r.task? t.id = some t) :
    ∃ es, Follows r es (r.advanceTask t).2 := by
  have hhold : ∀ x : Rehearsal × Task, (advanceTask.hold x).2 = x.1.setTask x.2 := by
    intro x
    rw [advanceTask.hold]
    split <;> rfl
  rw [Rehearsal.advanceTask]
  cases hw : t.wait with
  | turn =>
      obtain ⟨es, hx⟩ := h.took_ask ht hw
      exact ⟨es, hhold _ ▸ hx.follows h ht⟩
  | call =>
      obtain ⟨es, hx⟩ := h.took_call ht hw
      exact ⟨es, hhold _ ▸ hx.follows h ht⟩
  | replied reply =>
      have hturn := h.turn ht hw rfl
      dsimp only
      split
      · exact ⟨_, hturn⟩
      · exact ⟨_, hturn⟩
  | _ => exact ⟨[], .refl h⟩

end Rehearsal

end UserDirectory
