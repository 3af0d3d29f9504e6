import UserDirectory.Proofs.Cached.Course
import UserDirectory.Proofs.Cached.Write

namespace UserDirectory

def Job.IsWrite : Job → Prop
  | .request q => q.IsWrite
  | .amend _ _ => True

/-- Whether an answer to a job is one about a user that it has changed. -/
def Job.Concerns : Job → Uuid → StoreAnswer → Prop
  | .request q, id, a => q.Concerns id a
  | .amend _ _, id, a => ∃ v, a = .user v ∧ v.id = id

/-- The requests with which a job may come to change a user. -/
inductive Job.Makes (o : Sources) : Job → StoreRequest → Prop
  | request {q : StoreRequest} : Makes o (.request q) q
  | amend {id : Uuid} {patch : UserPatch} {u : User} (h : o.Gives id (.ok (.user u))) :
      Makes o (.amend id patch) (.save (u.apply patch))

/-- The sources of reads of which is known only that a lookup by id finds one user at most. -/
def Sources.lookups : Sources where
  entry _ _ := True
  index _ _ := True
  reply q r := ∀ id b, q = .get id → r = .ok b → ∃ u, b = .user u

/-- Whether a stage is one of a patch that looks for the user, and what it carries is from the
sources. -/
def Stage.Finds (o : Sources) (id : Uuid) (patch : UserPatch) : Stage → Prop
  | .readEntry id' _ p | .fetch id' _ p => id' = id ∧ p = .amend patch
  | .awaitWrite u _ p | .writeEntry u p | .writeIndex u p =>
    p = some (.amend patch) ∧ o.Gives id (.ok (.user u))
  | _ => False

def Process.Finds (w : Wiring) (o : Sources) (id : Uuid) (patch : UserPatch) (p : Process) : Prop :=
  p.stage.Finds o id patch ∧ p.RepliedFrom w o

/-- Whether a task serves a job that changes a user: it looks for the user still, or it carries a
write out. -/
inductive Process.Performs (w : Wiring) (o : Sources) (y : StoreRequest → Duty) :
    Job → Process → Prop
  | finding {id : Uuid} {patch : UserPatch} {p : Process} (h : p.Finds w o id patch)
      (hu : ∀ q, (y q).unserved) : Performs w o y (.amend id patch) p
  | writing {j : Job} {q : StoreRequest} {p : Process} (hq : j.Makes o q) (h : p.Writes (y q)) :
      Performs w o y j p

variable {w : Wiring} {f : Fences} {o : Sources} {y y' : StoreRequest → Duty} {st st' : Stage}
  {r : Reply} {id : Uuid} {patch : UserPatch} {u : User} {j : Job} {q : StoreRequest}

theorem Job.Concerns.isWrite {a : StoreAnswer} (h : j.Concerns id a) : j.IsWrite := by
  cases j with
  | request q => exact StoreRequest.Concerns.isWrite h
  | amend id patch => trivial

theorem Job.Makes.concerns (h : j.Makes o q) {a : StoreAnswer} (ha : j.Concerns id a) :
    q.Concerns id a := by
  cases h with
  | request => exact ha
  | amend h => exact ha

theorem Purpose.Continues.writes {v : Duty} (h : Purpose.Continues w u (.amend patch) st)
    (hq : v.request = .save (u.apply patch)) (hu : v.unserved) :
    Process.Writes v ⟨st, .ready⟩ := by
  cases h with
  | saving => exact ⟨hq, fun _ => hu⟩
  | replacing => exact ⟨hq, fun _ => hu⟩

theorem Purpose.Continues.performs (h : Purpose.Continues w u (.amend patch) st)
    (hu : o.Gives id (.ok (.user u))) (hy : ∀ q, (y q).request = q) (hun : ∀ q, (y q).unserved) :
    Process.Performs w o y (.amend id patch) ⟨st, .ready⟩ :=
  .writing (.amend hu) (h.writes (hy _) (hun _))

theorem Stage.Finds.process {sd : Standing} (h : st.Finds o id patch)
    (hsd : ∀ r, sd = .replied r → r = .granted) : Process.Finds w o id patch ⟨st, sd⟩ := by
  refine ⟨h, fun r hr => ?_⟩
  rw [hsd r hr]
  cases st <;> trivial

theorem Stage.Successor.performs (h : st.Successor w f r st') (hst : st.Finds o id patch)
    (hr : st.RepliedFrom w o r) (hy : ∀ q, (y q).request = q) (hun : ∀ q, (y q).unserved) :
    Process.Performs w o y (.amend id patch) ⟨st', .ready⟩ := by
  have hfinding : ∀ {st}, st.Finds o id patch →
      Process.Performs w o y (.amend id patch) ⟨st, .ready⟩ :=
    fun hst => .finding (hst.process (by simp)) hun
  cases h with
  | hit hu hc =>
      obtain ⟨rfl, rfl⟩ := hst
      exact hc.performs (.entry (hr _ hu)) hy hun
  | miss hu => exact hfinding hst
  | populating =>
      obtain ⟨rfl, rfl⟩ := hst
      exact hfinding ⟨rfl, .store (hr _ rfl)⟩
  | fetched hc =>
      obtain ⟨rfl, rfl⟩ := hst
      exact hc.performs (.store (hr _ rfl)) hy hun
  | lost => cases hst.2
  | admitted hn => exact hfinding hst
  | skipped hn hc =>
      obtain ⟨rfl, hu⟩ : _ = Purpose.amend patch ∧ _ := ⟨Option.some.inj hst.1, hst.2⟩
      exact hc.performs hu hy hun
  | entryWritten he => exact hfinding hst
  | written hc =>
      obtain ⟨rfl, hu⟩ : _ = Purpose.amend patch ∧ _ := ⟨Option.some.inj hst.1, hst.2⟩
      exact hc.performs hu hy hun
  | indexWritten hc =>
      obtain ⟨rfl, hu⟩ : _ = Purpose.amend patch ∧ _ := ⟨Option.some.inj hst.1, hst.2⟩
      exact hc.performs hu hy hun
  | _ => exact hst.elim

theorem Stage.Results.of_finds {a : StoreReply} (h : st.Results w r a)
    (hst : st.Finds o id patch) (hr : st.RepliedFrom w o r) :
    o.reply (.get id) a ∧ ∀ u, a ≠ .ok (.user u) := by
  cases h with
  | hit hu ha =>
      obtain ⟨rfl, rfl⟩ := hst
      cases ha
  | fetched ha =>
      obtain ⟨rfl, rfl⟩ := hst
      cases ha
  | passed ha =>
      obtain ⟨rfl, rfl⟩ := hst
      exact ⟨hr _ rfl, fun u hu => ha u (Except.ok.inj hu)⟩
  | failed he =>
      obtain ⟨rfl, rfl⟩ := hst
      exact ⟨hr _ rfl, by simp⟩
  | skipped ha =>
      obtain ⟨rfl, -⟩ : _ = Purpose.amend patch ∧ _ := ⟨Option.some.inj hst.1, hst.2⟩
      cases ha
  | written ha =>
      obtain ⟨rfl, -⟩ : _ = Purpose.amend patch ∧ _ := ⟨Option.some.inj hst.1, hst.2⟩
      cases ha
  | indexWritten ha =>
      obtain ⟨rfl, -⟩ : _ = Purpose.amend patch ∧ _ := ⟨Option.some.inj hst.1, hst.2⟩
      cases ha
  | skippedAlone => cases hst.1
  | writtenAlone => cases hst.1
  | indexWrittenAlone => cases hst.1
  | _ => exact hst.elim

theorem Stage.Finds.not_isWrite (h : st.Finds o id patch) (hq : st.request w = .store q) :
    ¬ q.IsWrite := by
  cases st with
  | fetch id' n p =>
      cases hq
      exact fun hw => hw
  | readEntry id' n p => cases hq
  | awaitWrite u n p => cases hq
  | writeEntry u p => cases hq
  | writeIndex u p => cases hq
  | _ => exact h.elim

theorem Job.Starts.performs (h : j.Starts w f st) (hj : j.IsWrite) (hy : ∀ q, (y q).request = q)
    (hu : ∀ q, (y q).unserved) : Process.Performs w o y j ⟨st, .ready⟩ := by
  cases j with
  | request q =>
      refine .writing .request (h.writes ?_ ?_ (hu q))
      · rw [hy]
      · rw [hy]
        exact hj
  | amend id patch =>
      have hfinds : st.Finds o id patch := by
        cases h with
        | amend hw => exact ⟨rfl, rfl⟩
        | amendStored hw => exact ⟨rfl, rfl⟩
      exact .finding (hfinds.process (by simp)) hu

namespace System

variable {mint : Mint} {s s' : System} {es E : List Event} {t : TaskId} {a : StoreReply}

theorem Origin.finds {p : Process} (hp : Origin w mint s es s' t p) (ho : Tidy w s)
    (ht : t < s.nextTask) (hsrc : s.Supplies mint es t o) (hy : ∀ q, (y q).request = q)
    (hun : ∀ q, (y q).unserved) (h : ∀ p, s.tasks t = some p → p.Finds w o id patch) :
    p.Performs w o y (.amend id patch) := by
  have hreplied : p.RepliedFrom w o := hp.repliedFrom hsrc
    (fun _ _ _ hst hq hw => absurd hw ((h _ hst).1.not_isWrite hq)) fun p hp => (h p hp).2
  rcases hp.stage_cases ho with
    ⟨sd, hst⟩ | ⟨j, hu, -⟩ | ⟨u, n, hu, -⟩ | ⟨st, r, st', hst, -, hsucc, rfl⟩
  · exact .finding ⟨(h _ hst).1, hreplied⟩ hun
  · exact absurd hu (Nat.ne_of_lt ht)
  · exact absurd hu (Nat.ne_of_lt ht)
  · exact hsucc.performs (h _ hst).1 ((h _ hst).2 _ rfl) hy hun

/-- Whether a step of a system carries on a task that changes a user, from one duty to the next.
While the task looks for the user, it is told what is from the sources. -/
structure Carries (mint : Mint) (s : System) (es : List Event) (t : TaskId) (o : Sources) (j : Job)
    (y y' : StoreRequest → Duty) : Prop where
  request : ∀ q, (y' q).request = q
  supplies : (∀ q, (y q).unserved) → s.Supplies mint es t o
  unserved : (∀ q r, .served t q r ∈ es → ¬ q.IsWrite) →
    ∀ q, (y q).unserved → (y' q).unserved
  furthers : ∀ q, j.Makes o q → s.Furthers mint es t (y q) (y' q)

theorem Origin.performs {p : Process} (hp : Origin w mint s es s' t p) (ho : Tidy w s)
    (ht : t < s.nextTask) (hc : s.Carries mint es t o j y y')
    (h : ∀ p, s.tasks t = some p → p.Performs w o y j) : p.Performs w o y' j := by
  rcases hp₀ : s.tasks t with _ | p₀
  · exact absurd (hp.eq_nextTask hp₀) (Nat.ne_of_lt ht)
  · cases h p₀ hp₀ with
    | @finding id patch _ hfinds hu =>
        have hall : ∀ p, s.tasks t = some p → p.Finds w o id patch :=
          fun _ hp => Option.some.inj (hp₀.symm.trans hp) ▸ hfinds
        refine hp.finds ho ht (hc.supplies hu) hc.request (fun q => hc.unserved ?_ q (hu q)) hall
        intro q r hmem
        obtain ⟨st, hst, hq⟩ := hp.of_served ht hmem
        exact (hall _ hst).1.not_isWrite hq
    | writing hq hwrites =>
        exact .writing hq (hp.writes ho ht (hc.furthers _ hq)
          (fun _ hp => Option.some.inj (hp₀.symm.trans hp) ▸ hwrites))

theorem supplies_lookups (mint : Mint) (s : System) (es : List Event) (t : TaskId) :
    s.Supplies mint es t .lookups where
  entry _ _ := trivial
  index _ := trivial
  reply _ _ := by
    rintro id b rfl hr
    obtain ⟨u, -, rfl⟩ := Directory.serve_get_ok hr
    exact ⟨u, rfl⟩
  refusal _ _ := by
    rintro id b - hr
    cases hr

theorem Step.writes_of_performs {b : StoreAnswer} (hs : Step w mint s es s') (ho : Orderly w s)
    (h : ∀ p, s.tasks t = some p → p.Performs w .lookups y j) (hret : .returned t (.ok b) ∈ es) :
    ∃ q, j.Makes .lookups q ∧ ∀ p, s.tasks t = some p → p.Writes (y q) := by
  obtain ⟨st, x, ht, hnext, -, -⟩ := hs.of_returned hret
  cases h _ ht with
  | finding hfinds hu =>
      obtain ⟨hreply, hne⟩ := (ho.tidy.results ht hnext).of_finds hfinds.1 (hfinds.2 _ rfl)
      obtain ⟨u, rfl⟩ := hreply _ _ rfl rfl
      exact absurd rfl (hne u)
  | @writing _ q _ hq hwrites =>
      exact ⟨q, hq, fun _ hp => Option.some.inj (ht.symm.trans hp) ▸ hwrites⟩

/-- When a call to change a user returns, its task has come to serve it, if all steps of the call
have carried it on while they have kept an invariant. -/
theorem Call.performed (c : Call w mint s es s' t j a) (h : Course w mint s es s')
    (hE : c.during ⊆ E) (I : System → Prop) {y : System → StoreRequest → Duty} (hj : j.IsWrite)
    (hy : ∀ x q, (y x q).request = q)
    (hI : I (c.first.spawn c.stage)) (hun : ∀ q, (y (c.first.spawn c.stage) q).unserved)
    (hstep : ∀ {x es₁ x'}, Stride w mint E s'.store x es₁ x' → I x →
      I x' ∧ x.Carries mint es₁ t o j (y x) (y x')) :
    I c.last ∧ ∀ p, c.last.tasks t = some p → p.Performs w o (y c.last) j := by
  have hlast : t < c.last.nextTask ∧ I c.last ∧
      ∀ p, c.last.tasks t = some p → p.Performs w o (y c.last) j := by
    refine c.course.inv (fun x => t < x.nextTask ∧ I x ∧
      ∀ p, x.tasks t = some p → p.Performs w o (y x) j) hE h.coherent.sound
      (c.stride h c.returning_subset).limit_before ?_ ⟨c.lt_nextTask, hI, ?_⟩
    · rintro x es₁ x' hx ⟨ht, hIx, hperforms⟩
      obtain ⟨hIx', hcarries⟩ := hstep hx hIx
      exact ⟨Nat.lt_of_lt_of_le ht hx.step.nextTask_le, hIx', fun p hp =>
        (hx.step.origin hx.coherent.orderly.tidy hp).performs hx.coherent.orderly.tidy ht hcarries
          hperforms⟩
    · intro p hp
      obtain rfl := c.eq_of_tasks hp
      exact (start_starts c.start).performs hj (hy _) hun
  exact hlast.2

end System

end UserDirectory
