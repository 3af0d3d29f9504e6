import UserDirectory.Cached.System
import UserDirectory.Proofs.Cached.Fence

/-!
What a turn does to the fences. A turn that does not end what a task does under a fence leaves the
task with the fence that it was given; one that does gives the fence up. Only the turn in which an
invalidation goes on from its wait changes a stamp.
-/

namespace UserDirectory

open UserDirectory.Json

/-- Whether a reply is of the kind that a request asks for. -/
def Reply.Fits : Reply → Request → Prop
  | .cache _, .cache _ | .store _, .store _ | .granted, .fence _ => True
  | _, _ => False

theorem Reply.Fits.cache {r : Reply} {q : CacheRequest} (h : r.Fits (.cache q)) :
    ∃ c, r = .cache c := by
  cases r with
  | cache c => exact ⟨c, rfl⟩
  | store c => exact h.elim
  | granted => exact h.elim

theorem Reply.Fits.store {r : Reply} {q : StoreRequest} (h : r.Fits (.store q)) :
    ∃ c, r = .store c := by
  cases r with
  | store c => exact ⟨c, rfl⟩
  | cache c => exact h.elim
  | granted => exact h.elim

theorem Reply.Fits.granted {r : Reply} {id : Uuid} (h : r.Fits (.fence id)) : r = .granted := by
  cases r with
  | granted => rfl
  | cache c => exact h.elim
  | store c => exact h.elim

/-- The fence that a task holds all through a stage. -/
def Stage.held? : Stage → Option Uuid
  | .writeEntry u _ | .writeIndex u _ => some u.id
  | .dropEntry id _ _ => some id
  | _ => none

/-- The fence for which a task comes to a stage. -/
def Stage.awaited? : Stage → Option Uuid
  | .awaitWrite u _ _ => some u.id
  | .awaitDrop id _ _ => some id
  | _ => none

def Next.held? : Next → Option Uuid
  | .stage s => s.held?
  | .finished _ => none

variable {w : Wiring} {f : Fences} {id : Uuid} {u : User} {n : Nat}

theorem Stage.fenced?_of_held? {s : Stage} (h : s.held? = some id) : s.fenced? = some id := by
  cases s <;> simp_all [Stage.held?, Stage.fenced?]

theorem Stage.fenced?_of_awaited? {s : Stage} (h : s.awaited? = some id) :
    s.fenced? = some id := by
  cases s <;> simp_all [Stage.awaited?, Stage.fenced?]

theorem Stage.request_eq_fence_iff {s : Stage} :
    s.request w = .fence id ↔ s.awaited? = some id := by
  cases s <;> simp [Stage.request, Stage.awaited?]

theorem Stage.lifetime_of_set {s : Stage} {key : String} {bytes : List UInt8} {lifetime : Nat}
    (h : s.request w = .cache (.set key bytes lifetime)) : lifetime = w.lifetime := by
  cases s with
  | writeEntry u p =>
      cases h
      rfl
  | writeIndex u p =>
      cases h
      rfl
  | _ => cases h

theorem Stage.fenced?_eq_held? {s : Stage} (h : s.awaited? = none) : s.fenced? = s.held? := by
  cases s <;> simp_all [Stage.awaited?, Stage.fenced?, Stage.held?]

theorem Stage.held?_eq_none {s : Stage} (h : s.awaited? = some id) : s.held? = none := by
  cases s <;> simp_all [Stage.awaited?, Stage.held?]

@[simp] theorem Next.held?_save (w : Wiring) (u : User) : (Next.save w u).held? = none := by
  simp only [Next.save]
  split <;> rfl

@[simp] theorem Next.held?_dropIndexes (a : StoreAnswer) (emails : List String) :
    (Next.dropIndexes a emails).held? = none := by
  cases emails <;> rfl

/-- A turn that has nothing to do with fences. -/
structure Turn.Aside (t : Turn) (f : Fences) : Prop where
  fences : t.fences = f
  woken : t.woken = none
  held : t.next.held? = none

theorem deliver_aside (p : Purpose) : (deliver w f id u p).Aside f := by
  cases p with
  | answer => exact ⟨rfl, rfl, rfl⟩
  | amend patch => exact ⟨rfl, rfl, Next.held?_save w _⟩
  | confirm email started =>
      simp only [deliver]
      split <;> exact ⟨rfl, rfl, rfl⟩

theorem deliverError_aside (e : UserError) (p : Purpose) : (deliverError f id e p).Aside f := by
  cases p with
  | answer => exact ⟨rfl, rfl, rfl⟩
  | amend patch => exact ⟨rfl, rfl, rfl⟩
  | confirm email started => cases e <;> exact ⟨rfl, rfl, rfl⟩

theorem populate_aside (p : Purpose) : (populate w f id u n p).Aside f := by
  simp only [populate]
  split
  · exact deliver_aside p
  · split
    · exact ⟨rfl, rfl, rfl⟩
    · exact ⟨(deliver_aside p).fences, (deliver_aside p).woken, (deliver_aside p).held⟩

theorem turn_readIndex_cases (w : Wiring) (f : Fences) (email : String) (n : Nat)
    (c : CacheReply) :
    (∃ bs id, c = .ok (.bytes bs) ∧ Codec.uuid.ofEntry bs = .ok id ∧
        (Stage.readIndex email n).turn w f (.cache c) =
          { next := .stage (.readEntry id f.clock (.confirm email n)), fences := f }) ∨
      ((∀ bs id, c = .ok (.bytes bs) → Codec.uuid.ofEntry bs ≠ .ok id) ∧
        ∃ logs, (Stage.readIndex email n).turn w f (.cache c) =
          { next := .stage (.fetchByEmail email n), fences := f, logs }) := by
  rcases c with e | a
  · refine Or.inr ⟨by simp, ?_⟩
    cases e <;> exact ⟨_, rfl⟩
  · cases a with
    | bytes bs =>
        simp only [Stage.turn]
        rcases hid : Codec.uuid.ofEntry bs with e | id
        · refine Or.inr ⟨?_, _, rfl⟩
          rintro _ id ⟨⟩
          simp [hid]
        · exact Or.inl ⟨bs, id, rfl, hid, rfl⟩
    | stored => exact Or.inr ⟨by simp, _, rfl⟩
    | removed found => exact Or.inr ⟨by simp, _, rfl⟩

/-- A turn in which a task gives up a fence. -/
structure Turn.Leaves (t : Turn) (f : Fences) (id : Uuid) : Prop where
  fences : t.fences = (f.release id).2
  woken : t.woken = (f.release id).1
  held : t.next.held? = none

theorem endWrite_leaves (p : Option Purpose) (e : LogEvent) :
    (endWrite w f u p e).Leaves f u.id := by
  cases p with
  | none => exact ⟨rfl, rfl, rfl⟩
  | some p =>
      have h : (deliver w (f.release u.id).2 u.id u p).Aside (f.release u.id).2 := deliver_aside p
      exact ⟨h.fences, rfl, h.held⟩

theorem Turn.Leaves.clock_eq {t : Turn} (h : t.Leaves f id) : t.fences.clock = f.clock := by
  rw [h.fences, Fences.clock_release]

theorem Turn.Leaves.stamp_eq {t : Turn} (h : t.Leaves f id) (id' : Uuid) :
    (t.fences.fence id').stamp = (f.fence id').stamp := by
  rw [h.fences, Fences.stamp_release]

/-- A turn in which a task keeps the fence that it has come to hold. -/
structure Turn.Keeps (t : Turn) (f : Fences) (s : Stage) : Prop where
  fences : t.fences = f ∨ ∃ id emails a, s = .awaitDrop id emails a ∧ t.fences = f.stamp id
  woken : t.woken = none
  held : t.next.held? = s.fenced?

theorem Turn.Aside.keeps {t : Turn} {s : Stage} (h : t.Aside f) (hs : s.fenced? = none) :
    t.Keeps f s :=
  ⟨Or.inl h.fences, h.woken, h.held.trans hs.symm⟩

theorem Turn.Keeps.clock_le {t : Turn} {s : Stage} (h : t.Keeps f s) :
    f.clock ≤ t.fences.clock := by
  rcases h.fences with hf | ⟨id, emails, a, -, hf⟩
  · exact Nat.le_of_eq (congrArg Fences.clock hf.symm)
  · rw [hf, Fences.clock_stamp]
    exact Nat.le_succ _

theorem Turn.Keeps.stamp_le {t : Turn} {s : Stage} (h : t.Keeps f s)
    (hf : ∀ id, (f.fence id).stamp ≤ f.clock) (id : Uuid) :
    (t.fences.fence id).stamp ≤ t.fences.clock := by
  rcases h.fences with hsame | ⟨id', emails, a, -, hstamp⟩
  · rw [hsame]
    exact hf id
  · rw [hstamp, Fences.stamp_stamp, Fences.clock_stamp]
    split
    · exact Nat.le_refl _
    · exact Nat.le_succ_of_le (hf id)

theorem Turn.Keeps.owned {t : Turn} {s : Stage} (h : t.Keeps f s)
    {holds waits : TaskId → Option Uuid} (hf : f.Owned holds waits) :
    t.fences.Owned holds waits := by
  rcases h.fences with hsame | ⟨id, emails, a, -, hstamp⟩
  · rw [hsame]
    exact hf
  · rw [hstamp]
    exact hf.stamp id

/-- Every turn keeps or leaves the fence that belongs to its stage. -/
theorem turn_keeps_or_leaves (s : Stage) {r : Reply} (hr : r.Fits (s.request w)) :
    (s.turn w f r).Keeps f s ∨ ∃ id, s.fenced? = some id ∧ (s.turn w f r).Leaves f id := by
  cases s with
  | readEntry id n p =>
      obtain ⟨r, rfl⟩ := hr.cache
      refine Or.inl (Turn.Aside.keeps ?_ rfl)
      simp only [Stage.turn]
      split
      · exact ⟨(deliver_aside p).fences, (deliver_aside p).woken, (deliver_aside p).held⟩
      · exact ⟨rfl, rfl, rfl⟩
  | fetch id n p =>
      obtain ⟨r, rfl⟩ := hr.store
      refine Or.inl (Turn.Aside.keeps ?_ rfl)
      simp only [Stage.turn]
      split
      · exact populate_aside p
      · exact ⟨rfl, rfl, rfl⟩
      · exact deliverError_aside _ p
  | readIndex email n =>
      obtain ⟨c, rfl⟩ := hr.cache
      refine Or.inl (Turn.Aside.keeps ?_ rfl)
      rcases turn_readIndex_cases w f email n c with ⟨bs, id, -, -, hturn⟩ | ⟨-, logs, hturn⟩
      · rw [hturn]
        exact ⟨rfl, rfl, rfl⟩
      · rw [hturn]
        exact ⟨rfl, rfl, rfl⟩
  | fetchByEmail email n =>
      obtain ⟨r, rfl⟩ := hr.store
      refine Or.inl (Turn.Aside.keeps ?_ rfl)
      simp only [Stage.turn]
      split
      · exact populate_aside _
      · exact ⟨rfl, rfl, rfl⟩
  | awaitWrite v n p =>
      obtain rfl := hr.granted
      simp only [Stage.turn]
      split
      · exact Or.inr ⟨v.id, rfl, endWrite_leaves p _⟩
      · exact Or.inl ⟨Or.inl rfl, rfl, rfl⟩
  | writeEntry v p =>
      obtain ⟨r, rfl⟩ := hr.cache
      simp only [Stage.turn]
      split
      · split
        · exact Or.inr ⟨v.id, rfl, endWrite_leaves p _⟩
        · exact Or.inl ⟨Or.inl rfl, rfl, rfl⟩
      · exact Or.inr ⟨v.id, rfl, endWrite_leaves p _⟩
  | writeIndex v p =>
      obtain ⟨r, rfl⟩ := hr.cache
      simp only [Stage.turn]
      split <;> exact Or.inr ⟨v.id, rfl, endWrite_leaves p _⟩
  | readReplaced v =>
      obtain ⟨r, rfl⟩ := hr.cache
      exact Or.inl ⟨Or.inl rfl, rfl, rfl⟩
  | save v replaced =>
      obtain ⟨r, rfl⟩ := hr.store
      refine Or.inl (Turn.Aside.keeps ?_ rfl)
      simp only [Stage.turn]
      split
      · split <;> exact ⟨rfl, rfl, rfl⟩
      · exact ⟨rfl, rfl, rfl⟩
  | readDoomed id =>
      obtain ⟨r, rfl⟩ := hr.cache
      exact Or.inl ⟨Or.inl rfl, rfl, rfl⟩
  | delete id email =>
      obtain ⟨r, rfl⟩ := hr.store
      refine Or.inl (Turn.Aside.keeps ?_ rfl)
      simp only [Stage.turn]
      split
      · split <;> exact ⟨rfl, rfl, rfl⟩
      · exact ⟨rfl, rfl, rfl⟩
  | awaitDrop id emails a =>
      obtain rfl := hr.granted
      exact Or.inl ⟨Or.inr ⟨id, emails, a, rfl, rfl⟩, rfl, rfl⟩
  | dropEntry id emails a =>
      obtain ⟨r, rfl⟩ := hr.cache
      exact Or.inr ⟨id, rfl, rfl, rfl, Next.held?_dropIndexes a emails⟩
  | dropIndex email afterwards =>
      obtain ⟨r, rfl⟩ := hr.cache
      refine Or.inl (Turn.Aside.keeps ⟨rfl, rfl, ?_⟩ rfl)
      cases afterwards with
      | lookUp email n => rfl
      | answer emails a => exact Next.held?_dropIndexes a emails
  | query params =>
      obtain ⟨r, rfl⟩ := hr.store
      exact Or.inl ⟨Or.inl rfl, rfl, rfl⟩
  | getVersion v =>
      obtain ⟨r, rfl⟩ := hr.store
      exact Or.inl ⟨Or.inl rfl, rfl, rfl⟩

end UserDirectory
