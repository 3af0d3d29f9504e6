import UserDirectory.Proofs.Cached.Turn

namespace UserDirectory

open UserDirectory.Json

/-- The stages to which a purpose leads when a user has been found for it. -/
inductive Purpose.Continues (w : Wiring) (u : User) : Purpose → Stage → Prop
  | saving {patch : UserPatch} : Continues w u (.amend patch) (.save (u.apply patch) none)
  | replacing {patch : UserPatch} : Continues w u (.amend patch) (.readReplaced (u.apply patch))
  | stale {email : String} {n : Nat} (he : u.email ≠ email) :
      Continues w u (.confirm email n) (.dropIndex email (.lookUp email n))

/-- The replies that a purpose gives when a user has been found for it. -/
inductive Purpose.Yields (u : User) : Purpose → StoreReply → Prop
  | answer : Yields u .answer (.ok (.user u))
  | confirm {email : String} {n : Nat} (he : u.email = email) :
      Yields u (.confirm email n) (.ok (.user u))

/-- The stages to which a task may go on. -/
inductive Stage.Successor (w : Wiring) (f : Fences) : Stage → Reply → Stage → Prop
  | hit {id : Uuid} {n : Nat} {p : Purpose} {r : CacheReply} {u : User} {s : Stage}
      (hu : (entryRead id r).1 = some u) (hs : p.Continues w u s) :
      Successor w f (.readEntry id n p) (.cache r) s
  | miss {id : Uuid} {n : Nat} {p : Purpose} {r : CacheReply} (hr : (entryRead id r).1 = none) :
      Successor w f (.readEntry id n p) (.cache r) (.fetch id n p)
  | populating {id : Uuid} {n : Nat} {p : Purpose} {u : User} :
      Successor w f (.fetch id n p) (.store (.ok (.user u))) (.awaitWrite u n (some p))
  | fetched {id : Uuid} {n : Nat} {p : Purpose} {u : User} {s : Stage} (hs : p.Continues w u s) :
      Successor w f (.fetch id n p) (.store (.ok (.user u))) s
  | lost {id id' : Uuid} {n n' : Nat} {email : String} :
      Successor w f (.fetch id n (.confirm email n')) (.store (.error (.notFound id')))
        (.dropIndex email (.lookUp email n'))
  | indexed {email : String} {n : Nat} {bs : List UInt8} {id : Uuid}
      (hid : Codec.uuid.ofEntry bs = .ok id) :
      Successor w f (.readIndex email n) (.cache (.ok (.bytes bs)))
        (.readEntry id f.clock (.confirm email n))
  | unindexed {email : String} {n : Nat} {r : CacheReply}
      (hr : ∀ bs id, r = .ok (.bytes bs) → Codec.uuid.ofEntry bs ≠ .ok id) :
      Successor w f (.readIndex email n) (.cache r) (.fetchByEmail email n)
  | found {email : String} {n : Nat} {u : User} :
      Successor w f (.fetchByEmail email n) (.store (.ok (.user u)))
        (.awaitWrite u n (some .answer))
  | admitted {u : User} {n : Nat} {p? : Option Purpose} (hn : ¬ n < (f.fence u.id).stamp) :
      Successor w f (.awaitWrite u n p?) .granted (.writeEntry u p?)
  | skipped {u : User} {n : Nat} {p : Purpose} {s : Stage} (hn : n < (f.fence u.id).stamp)
      (hs : p.Continues w u s) : Successor w f (.awaitWrite u n (some p)) .granted s
  | entryWritten {u : User} {p? : Option Purpose} {a : CacheAnswer} (he : u.email ≠ "") :
      Successor w f (.writeEntry u p?) (.cache (.ok a)) (.writeIndex u p?)
  | written {u : User} {p : Purpose} {r : CacheReply} {s : Stage} (hs : p.Continues w u s) :
      Successor w f (.writeEntry u (some p)) (.cache r) s
  | indexWritten {u : User} {p : Purpose} {r : CacheReply} {s : Stage}
      (hs : p.Continues w u s) : Successor w f (.writeIndex u (some p)) (.cache r) s
  | replacing {u : User} {r : CacheReply} :
      Successor w f (.readReplaced u) (.cache r)
        (.save u ((entryRead u.id r).1.map (·.email)))
  | saved {u v : User} {replaced : Option String} :
      Successor w f (.save v replaced) (.store (.ok (.user u)))
        (.awaitDrop u.id (touchedEmails u replaced) (.user u))
  | doomed {id : Uuid} {r : CacheReply} :
      Successor w f (.readDoomed id) (.cache r) (.delete id ((entryRead id r).1.map (·.email)))
  | deleted {id : Uuid} {email : Option String} {a : StoreAnswer} :
      Successor w f (.delete id email) (.store (.ok a))
        (.awaitDrop id (email.toList.filter (· ≠ "")) a)
  | ticked {id : Uuid} {emails : List String} {a : StoreAnswer} :
      Successor w f (.awaitDrop id emails a) .granted (.dropEntry id emails a)
  | dropped {id : Uuid} {email : String} {rest : List String} {a : StoreAnswer} {r : CacheReply} :
      Successor w f (.dropEntry id (email :: rest) a) (.cache r)
        (.dropIndex email (.answer rest a))
  | indexDropped {email email' : String} {rest : List String} {a : StoreAnswer}
      {r : CacheReply} :
      Successor w f (.dropIndex email (.answer (email' :: rest) a)) (.cache r)
        (.dropIndex email' (.answer rest a))
  | lookingUp {email email' : String} {n : Nat} {r : CacheReply} :
      Successor w f (.dropIndex email (.lookUp email' n)) (.cache r) (.fetchByEmail email' n)

/-- The write-backs that a task may leave behind: of which user, and since which reading of the
clock. -/
inductive Stage.Spawns : Stage → Reply → User → Nat → Prop
  | fetched {id : Uuid} {n : Nat} {p : Purpose} {u : User} :
      Spawns (.fetch id n p) (.store (.ok (.user u))) u n
  | found {email : String} {n : Nat} {u : User} :
      Spawns (.fetchByEmail email n) (.store (.ok (.user u))) u n

/-- The replies with which a task may end at a stage. -/
inductive Stage.Results (w : Wiring) : Stage → Reply → StoreReply → Prop
  | hit {id : Uuid} {n : Nat} {p : Purpose} {r : CacheReply} {u : User} {a : StoreReply}
      (hu : (entryRead id r).1 = some u) (ha : p.Yields u a) :
      Results w (.readEntry id n p) (.cache r) a
  | fetched {id : Uuid} {n : Nat} {p : Purpose} {u : User} {a : StoreReply}
      (ha : p.Yields u a) : Results w (.fetch id n p) (.store (.ok (.user u))) a
  | passed {id : Uuid} {n : Nat} {p : Purpose} {a : StoreAnswer} (ha : ∀ u, a ≠ .user u) :
      Results w (.fetch id n p) (.store (.ok a)) (.ok a)
  | failed {id : Uuid} {n : Nat} {p : Purpose} {e : UserError}
      (he : ∀ email n' id', p = .confirm email n' → e ≠ .notFound id') :
      Results w (.fetch id n p) (.store (.error e)) (.error e)
  | found {email : String} {n : Nat} {r : StoreReply} :
      Results w (.fetchByEmail email n) (.store r) r
  | skipped {u : User} {n : Nat} {p : Purpose} {a : StoreReply} (ha : p.Yields u a) :
      Results w (.awaitWrite u n (some p)) .granted a
  | written {u : User} {p : Purpose} {r : CacheReply} {a : StoreReply} (ha : p.Yields u a) :
      Results w (.writeEntry u (some p)) (.cache r) a
  | indexWritten {u : User} {p : Purpose} {r : CacheReply} {a : StoreReply}
      (ha : p.Yields u a) : Results w (.writeIndex u (some p)) (.cache r) a
  | skippedAlone {u : User} {n : Nat} : Results w (.awaitWrite u n none) .granted (.ok .done)
  | writtenAlone {u : User} {r : CacheReply} :
      Results w (.writeEntry u none) (.cache r) (.ok .done)
  | indexWrittenAlone {u : User} {r : CacheReply} :
      Results w (.writeIndex u none) (.cache r) (.ok .done)
  | saved {u : User} {replaced : Option String} {r : StoreReply}
      (hr : w.isNone = true ∨ ∀ v, r ≠ .ok (.user v)) :
      Results w (.save u replaced) (.store r) r
  | deleted {id : Uuid} {email : Option String} {r : StoreReply}
      (hr : w.isNone = true ∨ ∀ a, r ≠ .ok a) : Results w (.delete id email) (.store r) r
  | dropped {id : Uuid} {a : StoreAnswer} {r : CacheReply} :
      Results w (.dropEntry id [] a) (.cache r) (.ok a)
  | indexDropped {email : String} {a : StoreAnswer} {r : CacheReply} :
      Results w (.dropIndex email (.answer [] a)) (.cache r) (.ok a)
  | query {p : QueryParams} {r : StoreReply} : Results w (.query p) (.store r) r
  | getVersion {v : Uuid} {r : StoreReply} : Results w (.getVersion v) (.store r) r

/-- The first stages of a job. -/
inductive Job.Starts (w : Wiring) (f : Fences) : Job → Stage → Prop
  | read {id : Uuid} (hw : w.isNone = false) :
      Starts w f (.request (.get id)) (.readEntry id f.clock .answer)
  | fetch {id : Uuid} (hw : w.isNone = true) :
      Starts w f (.request (.get id)) (.fetch id f.clock .answer)
  | readIndex {email : String} (hw : w.isNone = false) :
      Starts w f (.request (.getByEmail email)) (.readIndex email f.clock)
  | fetchByEmail {email : String} (hw : w.isNone = true) :
      Starts w f (.request (.getByEmail email)) (.fetchByEmail email f.clock)
  | replace {u : User} (hw : w.isNone = false) :
      Starts w f (.request (.save u)) (.readReplaced u)
  | save {u : User} (hw : w.isNone = true ∨ u.id.isNil = true) :
      Starts w f (.request (.save u)) (.save u none)
  | doom {id : Uuid} (hw : w.isNone = false) : Starts w f (.request (.delete id)) (.readDoomed id)
  | delete {id : Uuid} (hw : w.isNone = true) :
      Starts w f (.request (.delete id)) (.delete id none)
  | query {p : QueryParams} : Starts w f (.request (.query p)) (.query p)
  | getVersion {v : Uuid} : Starts w f (.request (.getVersion v)) (.getVersion v)
  | amend {id : Uuid} {patch : UserPatch} (hw : w.isNone = false) :
      Starts w f (.amend id patch) (.readEntry id f.clock (.amend patch))
  | amendStored {id : Uuid} {patch : UserPatch} (hw : w.isNone = true) :
      Starts w f (.amend id patch) (.fetch id f.clock (.amend patch))

/-- Whether a turn leads only to stages, ends only with replies and leaves only write-backs behind
that have a property. -/
structure Turn.LeadsTo (t : Turn) (P : Stage → Prop) (R : StoreReply → Prop)
    (B : User → Nat → Prop) : Prop where
  stage : ∀ s, t.next = .stage s → P s
  finished : ∀ a, t.next = .finished a → R a
  spawned : ∀ s, t.spawned = some s → ∃ u n, s = .awaitWrite u n none ∧ B u n

variable {w : Wiring} {f : Fences} {id : Uuid} {u : User} {n : Nat} {P : Stage → Prop}
  {R : StoreReply → Prop} {B : User → Nat → Prop}

theorem Turn.leadsTo_stage {s : Stage} {f : Fences} {logs : List LogEvent} {woken : Option TaskId}
    (h : P s) : ({ next := .stage s, fences := f, logs, woken } : Turn).LeadsTo P R B where
  stage := by
    rintro s ⟨⟩
    exact h
  finished := by
    rintro a ⟨⟩
  spawned := by
    rintro s ⟨⟩

theorem Turn.leadsTo_finished {a : StoreReply} {f : Fences} {logs : List LogEvent}
    {woken : Option TaskId} (h : R a) :
    ({ next := .finished a, fences := f, logs, woken } : Turn).LeadsTo P R B where
  stage := by
    rintro s ⟨⟩
  finished := by
    rintro a ⟨⟩
    exact h
  spawned := by
    rintro s ⟨⟩

theorem Turn.LeadsTo.of_eq {t t' : Turn} (h : t.LeadsTo P R B) (hn : t'.next = t.next)
    (hs : t'.spawned = t.spawned) : t'.LeadsTo P R B :=
  ⟨hn ▸ h.stage, hn ▸ h.finished, hs ▸ h.spawned⟩

theorem deliver_leadsTo {p : Purpose} (hs : ∀ s, p.Continues w u s → P s)
    (hr : ∀ a, p.Yields u a → R a) : (deliver w f id u p).LeadsTo P R B := by
  cases p with
  | answer => exact Turn.leadsTo_finished (hr _ .answer)
  | amend patch =>
      simp only [deliver, Next.save]
      split
      · exact Turn.leadsTo_stage (hs _ .saving)
      · exact Turn.leadsTo_stage (hs _ .replacing)
  | confirm email started =>
      simp only [deliver]
      split
      · rename_i he
        exact Turn.leadsTo_finished (hr _ (.confirm he))
      · rename_i he
        exact Turn.leadsTo_stage (hs _ (.stale he))

theorem deliverError_leadsTo {p : Purpose} {e : UserError}
    (hlost : ∀ email m id', p = .confirm email m → e = .notFound id' →
      P (.dropIndex email (.lookUp email m)))
    (hr : (∀ email m id', p = .confirm email m → e ≠ .notFound id') → R (.error e)) :
    (deliverError f id e p).LeadsTo P R B := by
  cases p with
  | answer => exact Turn.leadsTo_finished (hr (by simp))
  | amend patch => exact Turn.leadsTo_finished (hr (by simp))
  | confirm email m =>
      simp only [deliverError]
      split
      · exact Turn.leadsTo_stage (hlost email m _ rfl rfl)
      · rename_i hne
        exact Turn.leadsTo_finished (hr fun _ _ id' _ => hne id')

theorem populate_leadsTo {p : Purpose} (hs : ∀ s, p.Continues w u s → P s)
    (hr : ∀ a, p.Yields u a → R a)
    (hw : P (.awaitWrite u n (some p))) (hb : B u n) :
    (populate w f id u n p).LeadsTo P R B := by
  have hdeliver : (deliver w f id u p).LeadsTo P R B := deliver_leadsTo hs hr
  simp only [populate]
  split
  · exact hdeliver
  · split
    · exact Turn.leadsTo_stage hw
    · refine ⟨hdeliver.stage, hdeliver.finished, ?_⟩
      rintro s ⟨⟩
      exact ⟨u, n, rfl, hb⟩

theorem endWrite_leadsTo {p? : Option Purpose} {e : LogEvent}
    (hs : ∀ p s, p? = some p → p.Continues w u s → P s)
    (hr : ∀ p a, p? = some p → p.Yields u a → R a) (hdone : p? = none → R (.ok .done)) :
    (endWrite w f u p? e).LeadsTo P R B := by
  cases p? with
  | none => exact Turn.leadsTo_finished (hdone rfl)
  | some p =>
      have hdeliver : (deliver w (f.release u.id).2 u.id u p).LeadsTo P R B :=
        deliver_leadsTo (fun s => hs p s rfl) (fun a => hr p a rfl)
      exact hdeliver.of_eq rfl rfl

theorem dropIndexes_leadsTo {a : StoreAnswer} {emails : List String} {f : Fences}
    {logs : List LogEvent} {woken : Option TaskId}
    (hs : ∀ e rest, emails = e :: rest → P (.dropIndex e (.answer rest a)))
    (hr : emails = [] → R (.ok a)) :
    ({ next := .dropIndexes a emails, fences := f, logs, woken } : Turn).LeadsTo P R B := by
  cases emails with
  | nil => exact Turn.leadsTo_finished (hr rfl)
  | cons e rest => exact Turn.leadsTo_stage (hs e rest rfl)

/-- Every turn leads to a successor or to a result. -/
theorem turn_leadsTo (s : Stage) {r : Reply} (hr : r.Fits (s.request w)) :
    (s.turn w f r).LeadsTo (s.Successor w f r) (s.Results w r) (s.Spawns r) := by
  cases s with
  | readEntry id n p =>
      obtain ⟨r, rfl⟩ := hr.cache
      simp only [Stage.turn]
      split
      · rename_i u hu
        have hdeliver : (deliver w f id u p).LeadsTo
            (Stage.Successor w f (.readEntry id n p) (.cache r))
            (Stage.Results w (.readEntry id n p) (.cache r))
            (Stage.Spawns (.readEntry id n p) (.cache r)) :=
          deliver_leadsTo (fun s hs => .hit hu hs) (fun a ha => .hit hu ha)
        exact hdeliver.of_eq rfl rfl
      · rename_i hu
        exact Turn.leadsTo_stage (.miss hu)
  | fetch id n p =>
      obtain ⟨r, rfl⟩ := hr.store
      simp only [Stage.turn]
      split
      · exact populate_leadsTo (fun s hs => .fetched hs) (fun a ha => .fetched ha) .populating
          .fetched
      · rename_i a ha
        exact Turn.leadsTo_finished (.passed fun u hu => ha u hu)
      · refine deliverError_leadsTo ?_ fun he => .failed he
        rintro email m id' rfl rfl
        exact .lost
  | readIndex email n =>
      obtain ⟨c, rfl⟩ := hr.cache
      rcases turn_readIndex_cases w f email n c with
        ⟨bs, id, rfl, hid, hturn⟩ | ⟨hunread, logs, hturn⟩
      · rw [hturn]
        exact Turn.leadsTo_stage (.indexed hid)
      · rw [hturn]
        exact Turn.leadsTo_stage (.unindexed hunread)
  | fetchByEmail email n =>
      obtain ⟨r, rfl⟩ := hr.store
      simp only [Stage.turn]
      split
      · rename_i u
        refine populate_leadsTo ?_ ?_ .found .found
        · rintro s ⟨⟩
        · rintro a ⟨⟩
          exact .found
      · exact Turn.leadsTo_finished .found
  | awaitWrite v n p? =>
      obtain rfl := hr.granted
      simp only [Stage.turn]
      split
      · rename_i hn
        refine endWrite_leadsTo ?_ ?_ ?_
        · rintro p s rfl hs
          exact .skipped hn hs
        · rintro p a rfl ha
          exact .skipped ha
        · rintro rfl
          exact .skippedAlone
      · rename_i hn
        exact Turn.leadsTo_stage (.admitted hn)
  | writeEntry v p? =>
      obtain ⟨r, rfl⟩ := hr.cache
      have hend : ∀ e, (endWrite w f v p? e).LeadsTo
          (Stage.Successor w f (.writeEntry v p?) (.cache r))
          (Stage.Results w (.writeEntry v p?) (.cache r))
          (Stage.Spawns (.writeEntry v p?) (.cache r)) := by
        intro e
        refine endWrite_leadsTo ?_ ?_ ?_
        · rintro p s rfl hs
          exact .written hs
        · rintro p a rfl ha
          exact .written ha
        · rintro rfl
          exact .writtenAlone
      cases r with
      | ok a =>
          simp only [Stage.turn]
          split
          · exact hend _
          · rename_i he
            exact Turn.leadsTo_stage (.entryWritten he)
      | error e => exact hend _
  | writeIndex v p? =>
      obtain ⟨r, rfl⟩ := hr.cache
      have hend : ∀ e, (endWrite w f v p? e).LeadsTo
          (Stage.Successor w f (.writeIndex v p?) (.cache r))
          (Stage.Results w (.writeIndex v p?) (.cache r))
          (Stage.Spawns (.writeIndex v p?) (.cache r)) := by
        intro e
        refine endWrite_leadsTo ?_ ?_ ?_
        · rintro p s rfl hs
          exact .indexWritten hs
        · rintro p a rfl ha
          exact .indexWritten ha
        · rintro rfl
          exact .indexWrittenAlone
      cases r with
      | ok a => exact hend _
      | error e => exact hend _
  | readReplaced v =>
      obtain ⟨r, rfl⟩ := hr.cache
      exact Turn.leadsTo_stage .replacing
  | save v replaced =>
      obtain ⟨r, rfl⟩ := hr.store
      simp only [Stage.turn]
      split
      · split
        · rename_i hw
          exact Turn.leadsTo_finished (.saved (Or.inl hw))
        · exact Turn.leadsTo_stage .saved
      · rename_i hne
        exact Turn.leadsTo_finished (.saved (Or.inr hne))
  | readDoomed id =>
      obtain ⟨r, rfl⟩ := hr.cache
      exact Turn.leadsTo_stage .doomed
  | delete id email =>
      obtain ⟨r, rfl⟩ := hr.store
      simp only [Stage.turn]
      split
      · split
        · rename_i hw
          exact Turn.leadsTo_finished (.deleted (Or.inl hw))
        · exact Turn.leadsTo_stage .deleted
      · rename_i hne
        exact Turn.leadsTo_finished (.deleted (Or.inr hne))
  | awaitDrop id emails a =>
      obtain rfl := hr.granted
      exact Turn.leadsTo_stage .ticked
  | dropEntry id emails a =>
      obtain ⟨r, rfl⟩ := hr.cache
      simp only [Stage.turn]
      refine dropIndexes_leadsTo ?_ ?_
      · rintro e rest rfl
        exact .dropped
      · rintro rfl
        exact .dropped
  | dropIndex email afterwards =>
      obtain ⟨r, rfl⟩ := hr.cache
      cases afterwards with
      | lookUp email' n => exact Turn.leadsTo_stage .lookingUp
      | answer emails a =>
          simp only [Stage.turn]
          refine dropIndexes_leadsTo ?_ ?_
          · rintro e rest rfl
            exact .indexDropped
          · rintro rfl
            exact .indexDropped
  | query params =>
      obtain ⟨r, rfl⟩ := hr.store
      exact Turn.leadsTo_finished .query
  | getVersion v =>
      obtain ⟨r, rfl⟩ := hr.store
      exact Turn.leadsTo_finished .getVersion

theorem start_starts {j : Job} {s : Stage} (h : j.start w f = .stage s) : j.Starts w f s := by
  cases j with
  | request q =>
      cases q with
      | save u =>
          simp only [Job.start, Next.save, Bool.or_eq_true] at h
          split at h
          · rename_i hdirect
            cases h
            exact .save hdirect
          · rename_i hdirect
            cases h
            exact .replace (eq_false_of_ne_true (not_or.mp hdirect).1)
      | get id =>
          simp only [Job.start, Next.stage.injEq] at h
          split at h
          · rename_i hw
            subst h
            exact .fetch hw
          · rename_i hw
            subst h
            exact .read (eq_false_of_ne_true hw)
      | getByEmail email =>
          simp only [Job.start, Next.stage.injEq] at h
          split at h
          · rename_i hw
            subst h
            exact .fetchByEmail hw
          · rename_i hw
            subst h
            exact .readIndex (eq_false_of_ne_true hw)
      | delete id =>
          simp only [Job.start, Next.stage.injEq] at h
          split at h
          · rename_i hw
            subst h
            exact .delete hw
          · rename_i hw
            subst h
            exact .doom (eq_false_of_ne_true hw)
      | query p =>
          cases h
          exact .query
      | getVersion v =>
          cases h
          exact .getVersion
  | amend id patch =>
      simp only [Job.start, Next.stage.injEq] at h
      split at h
      · rename_i hw
        subst h
        exact .amendStored hw
      · rename_i hw
        subst h
        exact .amend (eq_false_of_ne_true hw)

end UserDirectory
