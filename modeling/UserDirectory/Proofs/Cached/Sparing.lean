import UserDirectory.Proofs.Cached.Clearance
import UserDirectory.Proofs.Directory.Sparing

namespace UserDirectory

open UserDirectory.Json

/-- Whether a job is for no change of a certain user. -/
def Job.Spares (id : Uuid) : Job → Prop
  | .request q => q.Spares id
  | .amend id' _ => id' ≠ id

/-- Whether a purpose does no change to a certain user if it is given a user with an id. -/
def Purpose.Spares (id id' : Uuid) : Purpose → Prop
  | .amend _ => id' ≠ id
  | _ => True

/-- Whether a task at a stage is not about to change a certain user. -/
def Stage.Spares (id : Uuid) : Stage → Prop
  | .readEntry id' _ p | .fetch id' _ p => p.Spares id id'
  | .awaitWrite u _ p | .writeEntry u p | .writeIndex u p => ∀ q ∈ p, q.Spares id u.id
  | .readReplaced u | .save u _ => u.id ≠ id
  | .readDoomed id' | .delete id' _ => id' ≠ id
  | _ => True

/-- The sources that give for an id a user with that id, and only users of some kind. -/
def Sources.holding (P : User → Prop) : Sources where
  entry id u := u.id = id ∧ P u
  index _ _ := True
  reply q r := ∀ id u, q = .get id → r = .ok (.user u) → u.id = id ∧ P u

variable {w : Wiring} {f : Fences} {st st' : Stage} {r : Reply} {id id' : Uuid} {u : User}
  {P : User → Prop} {j : Job} {q : StoreRequest} {p : Purpose}

theorem Sources.Gives.holds {a : StoreReply} (h : (Sources.holding P).Gives id a)
    (ha : a = .ok (.user u)) : u.id = id ∧ P u := by
  cases h with
  | entry h =>
      cases ha
      exact h
  | store h => exact h id u rfl ha

theorem Sources.reply_holding_of_isWrite (hq : q.IsWrite) (a : StoreReply) :
    (Sources.holding P).reply q a := by
  rintro id u rfl
  exact hq.elim

theorem Purpose.Spares.continues (h : p.Spares id u.id) (hc : p.Continues w u st) :
    st.Spares id := by
  cases hc with
  | saving => exact h
  | replacing => exact h
  | stale he => trivial

theorem Stage.Successor.spares (h : st.Successor w f r st') (hst : st.Spares id)
    (hr : st.RepliedFrom w (.holding P) r) : st'.Spares id := by
  cases h with
  | hit hu hc =>
      obtain ⟨rfl, -⟩ := hr _ hu
      exact Purpose.Spares.continues hst hc
  | miss hu => exact hst
  | @populating id' n p u =>
      obtain ⟨rfl, -⟩ := hr _ rfl id' u rfl rfl
      rintro q ⟨⟩
      exact hst
  | @fetched id' n p u st' hc =>
      obtain ⟨rfl, -⟩ := hr _ rfl id' u rfl rfl
      exact Purpose.Spares.continues hst hc
  | found =>
      rintro q ⟨⟩
      trivial
  | admitted hn => exact hst
  | skipped hn hc => exact Purpose.Spares.continues (hst _ rfl) hc
  | entryWritten he => exact hst
  | written hc => exact Purpose.Spares.continues (hst _ rfl) hc
  | indexWritten hc => exact Purpose.Spares.continues (hst _ rfl) hc
  | replacing => exact hst
  | doomed => exact hst
  | _ => trivial

theorem Job.Starts.spares (h : j.Starts w f st) (hj : j.Spares id) : st.Spares id := by
  cases h with
  | replace => exact hj
  | save => exact hj
  | doom => exact hj
  | delete => exact hj
  | amend => exact hj
  | amendStored => exact hj
  | _ => trivial

theorem Stage.Spares.request (h : st.Spares id) (hq : st.request w = .store q) : q.Spares id := by
  cases st with
  | save u replaced =>
      cases hq
      exact h
  | delete id' email =>
      cases hq
      exact h
  | fetch id' n p =>
      cases hq
      trivial
  | fetchByEmail email n =>
      cases hq
      trivial
  | query params =>
      cases hq
      trivial
  | getVersion v =>
      cases hq
      trivial
  | _ => cases hq

namespace System

variable {mint : Mint} {s s' : System} {es E : List Event} {t : TaskId} {o : Option TaskId}
  {d : Directory}

theorem Coherent.supplies (hc : Coherent w mint s) (es : List Event) (t : TaskId)
    (hentry : ∀ {id e u}, s.cache.entry? (CacheKey.user id) = some e →
      User.codec.ofEntry e.bytes = .ok u → P u)
    (hview : ∀ {id u}, s.store.view id = some u → P u) :
    s.Supplies mint es t (.holding P) where
  entry := by
    intro id bs u hget hu
    obtain ⟨e, he, rfl, -⟩ := MemoryCache.entry?_of_get? hget
    exact ⟨hc.sound.id_of_mem_history (hc.mem_history he hu), hentry he hu⟩
  index _ := trivial
  reply _ _ := by
    rintro id u rfl hr
    obtain ⟨v, hv, ⟨⟩⟩ := Directory.serve_get_ok hr
    exact ⟨hc.sound.id_of_view hv, hview hv⟩
  refusal _ _ id u _ hr := by cases hr

/-- Whether all tasks but one spare a user. -/
def Spared (w : Wiring) (id : Uuid) (o : Option TaskId) (s : System) : Prop :=
  ∀ t p, s.tasks t = some p → some t ≠ o →
    p.stage.Spares id ∧ p.RepliedFrom w (.holding fun _ => True)

theorem Stride.spared (hs : Stride w mint E d s es s')
    (hbegan : ∀ t j, .began t j ∈ es → some t ≠ o → j.Spares id) (h : s.Spared w id o) :
    s'.Spared w id o := by
  intro t p hp ht
  have ho := hs.coherent.orderly.tidy
  have horigin := hs.step.origin ho hp
  have hreplied : p.RepliedFrom w (.holding fun _ => True) :=
    horigin.repliedFrom (hs.coherent.supplies es t (fun _ _ => trivial) fun _ => trivial)
      (fun _ _ _ _ _ hw => Sources.reply_holding_of_isWrite hw) fun p hp => (h t p hp ht).2
  refine ⟨?_, hreplied⟩
  rcases horigin.stage_cases ho with
    ⟨sd, hst⟩ | ⟨j, -, rfl, hj⟩ | ⟨u, n, -, hst⟩ | ⟨st, r, st', hst, -, hsucc, rfl⟩
  · exact (h t ⟨p.stage, sd⟩ hst ht).1
  · exact hj.spares (hbegan t j (List.mem_singleton_self _) ht)
  · rw [hst]
    rintro q ⟨⟩
  · exact hsucc.spares (h _ _ hst ht).1 ((h _ _ hst ht).2 _ rfl)

theorem Stride.spares_store (hs : Stride w mint E d s es s') (hm : mint.Fresh d.drawn)
    (h : s.Spared w id o)
    (hserved : ∀ t q r, some t = o → .served t q r ∈ es → q.Spares id) :
    s.store.Spares id s'.store := by
  rcases hs.step.store_cases with hsame | ⟨t, st, q, hst, hq, hes, hstore⟩
  · rw [hsame]
    exact .refl id s.store
  · have hsparing : q.Spares id := by
      by_cases ht : some t = o
      · exact hserved t q _ ht (hes ▸ List.mem_singleton_self _)
      · exact (h _ _ hst ht).1.request hq
    have hfresh := hm.mono hs.limit.drawn
    rw [hstore] at hfresh ⊢
    exact hs.coherent.sound.spares_serve hfresh hsparing

end System

end UserDirectory
