import UserDirectory.Proofs.Cached.Read
import UserDirectory.Proofs.Cached.World
import UserDirectory.Proofs.Cached.WriteBack

namespace UserDirectory

open UserDirectory.Json

/-- Whether a stage is one of a call that has to ask the store for its request still. -/
inductive Stage.Asks : StoreRequest → Stage → Prop
  | readEntry {id : Uuid} {n : Nat} : Asks (.get id) (.readEntry id n .answer)
  | fetch {id : Uuid} {n : Nat} : Asks (.get id) (.fetch id n .answer)
  | readReplaced {u : User} : Asks (.save u) (.readReplaced u)
  | save {u : User} {replaced : Option String} : Asks (.save u) (.save u replaced)
  | readDoomed {id : Uuid} : Asks (.delete id) (.readDoomed id)
  | delete {id : Uuid} {email : Option String} : Asks (.delete id) (.delete id email)
  | query {p : QueryParams} : Asks (.query p) (.query p)
  | getVersion {v : Uuid} : Asks (.getVersion v) (.getVersion v)

/-- Whether a stage is one of a call that has got its answer from the store. -/
inductive Stage.Brings : StoreAnswer → Stage → Prop
  | awaitWrite {u : User} {n : Nat} : Brings (.user u) (.awaitWrite u n (some .answer))
  | writeEntry {u : User} : Brings (.user u) (.writeEntry u (some .answer))
  | writeIndex {u : User} : Brings (.user u) (.writeIndex u (some .answer))
  | awaitDrop {id : Uuid} {emails : List String} {a : StoreAnswer} :
      Brings a (.awaitDrop id emails a)
  | dropEntry {id : Uuid} {emails : List String} {a : StoreAnswer} :
      Brings a (.dropEntry id emails a)
  | dropIndex {email : String} {emails : List String} {a : StoreAnswer} :
      Brings a (.dropIndex email (.answer emails a))

/-- Whether an encounter does nothing to the cache and to the fences, and starts nothing that
could. -/
structure Encounter.IsIdle (w : Wiring) (x : Encounter) : Prop where
  cache : ∀ q, x.request w = .cache q → q = .get q.key
  fence : ∀ id, x.request w ≠ .fence id
  fences : (x.turn w).fences = x.fences
  spawned : (x.turn w).spawned = none

/-- Whether a reply to a read of a user's entry is in some encounters, and gives the user. -/
def Hit (w : Wiring) (xs : List Encounter) (id : Uuid) (u : User) : Prop :=
  ∃ x ∈ xs, ∃ bs, x.request w = .cache (.get (CacheKey.user id)) ∧
    x.reply = .cache (.ok (.bytes bs)) ∧ User.codec.ofEntry bs = .ok u

/-- Whether a reply to a read of the index is in some encounters, and names a user for an email. -/
def Named (w : Wiring) (xs : List Encounter) (email : String) (id : Uuid) : Prop :=
  ∃ x ∈ xs, ∃ c, x.request w = .cache (.get (CacheKey.email email)) ∧ x.reply = .cache c ∧
    indexRead c = some id

/-- The sources of a call that is seen in some encounters: what the index and the store have
replied there. -/
def Sources.heard (w : Wiring) (xs : List Encounter) : Sources where
  entry _ _ := True
  index email i := ∀ id, i = some id → Named w xs email id
  reply q r := (q, r) ∈ storeCalls w xs

variable {w : Wiring} {f : Fences} {st st' : Stage} {r : Reply} {q : StoreRequest}
  {a : StoreAnswer} {b : StoreReply} {W : World} {past xs : List Encounter}

theorem Stage.request_ne_store {c : CacheRequest} (h : st.request w = .cache c)
    (q : StoreRequest) : st.request w ≠ .store q := by
  rw [h]
  exact Request.noConfusion

theorem Stage.Brings.successor (h : st.Brings a) (hs : st.Successor w f r st') :
    st'.Brings a := by
  cases h with
  | awaitWrite =>
      cases hs with
      | admitted hn => exact .writeEntry
      | skipped hn hc => cases hc
  | writeEntry =>
      cases hs with
      | entryWritten he => exact .writeIndex
      | written hc => cases hc
  | writeIndex =>
      cases hs with
      | indexWritten hc => cases hc
  | awaitDrop =>
      cases hs with
      | ticked => exact .dropEntry
  | dropEntry =>
      cases hs with
      | dropped => exact .dropIndex
  | dropIndex =>
      cases hs with
      | indexDropped => exact .dropIndex

theorem Stage.Brings.results (h : st.Brings a) (hr : st.Results w r b) : b = .ok a := by
  cases h with
  | awaitWrite =>
      cases hr with
      | skipped ha =>
          cases ha
          rfl
  | writeEntry =>
      cases hr with
      | written ha =>
          cases ha
          rfl
  | writeIndex =>
      cases hr with
      | indexWritten ha =>
          cases ha
          rfl
  | awaitDrop => cases hr
  | dropEntry =>
      cases hr with
      | dropped => rfl
  | dropIndex =>
      cases hr with
      | indexDropped => rfl

theorem Stage.Brings.not_store (h : st.Brings a) (q : StoreRequest) :
    st.request w ≠ .store q := by
  cases h <;> exact nofun

theorem Stage.Asks.successor (h : st.Asks q) (hs : st.Successor w f r st') :
    (st'.Asks q ∧ ∀ q', st.request w ≠ .store q') ∨
      st.request w = .store q ∧ ∃ a, r = .store (.ok a) ∧ st'.Brings a := by
  cases h with
  | readEntry =>
      cases hs with
      | hit hu hc => cases hc
      | miss hu => exact Or.inl ⟨.fetch, Stage.request_ne_store rfl⟩
  | fetch =>
      cases hs with
      | populating => exact Or.inr ⟨rfl, _, rfl, .awaitWrite⟩
      | fetched hc => cases hc
  | readReplaced =>
      cases hs with
      | replacing => exact Or.inl ⟨.save, Stage.request_ne_store rfl⟩
  | save =>
      cases hs with
      | saved => exact Or.inr ⟨rfl, _, rfl, .awaitDrop⟩
  | readDoomed =>
      cases hs with
      | doomed => exact Or.inl ⟨.delete, Stage.request_ne_store rfl⟩
  | delete =>
      cases hs with
      | deleted => exact Or.inr ⟨rfl, _, rfl, .awaitDrop⟩
  | query => cases hs
  | getVersion => cases hs

theorem Stage.Asks.results (h : st.Asks q) (hr : st.Results w r b) :
    (st.request w = .store q ∧ r = .store b) ∨ ∃ id u c, q = .get id ∧
      st.request w = .cache (.get (CacheKey.user id)) ∧ r = .cache c ∧
      (entryRead id c).1 = some u ∧ b = .ok (.user u) := by
  cases h with
  | readEntry =>
      cases hr with
      | hit hu ha =>
          cases ha
          exact Or.inr ⟨_, _, _, rfl, rfl, rfl, hu, rfl⟩
  | fetch =>
      cases hr with
      | fetched ha =>
          cases ha
          exact Or.inl ⟨rfl, rfl⟩
      | passed ha => exact Or.inl ⟨rfl, rfl⟩
      | failed he => exact Or.inl ⟨rfl, rfl⟩
  | readReplaced => cases hr
  | save =>
      cases hr with
      | saved hr => exact Or.inl ⟨rfl, rfl⟩
  | readDoomed => cases hr
  | delete =>
      cases hr with
      | deleted hr => exact Or.inl ⟨rfl, rfl⟩
  | query =>
      cases hr with
      | query => exact Or.inl ⟨rfl, rfl⟩
  | getVersion =>
      cases hr with
      | getVersion => exact Or.inl ⟨rfl, rfl⟩

theorem Stage.Asks.leaves (h : st.Asks q) (hf : r.Fits (st.request w))
    (hr : ∀ a, r ≠ .store (.ok a)) :
    (st.turn w f r).fences = f ∧ (st.turn w f r).spawned = none := by
  have herror : ∀ {b}, r = .store b → ∃ e, b = .error e := by
    rintro (e | a) hb
    · exact ⟨e, rfl⟩
    · exact absurd hb (hr a)
  cases h with
  | readEntry =>
      obtain ⟨c, rfl⟩ := hf.cache
      simp only [Stage.turn]
      split <;> exact ⟨rfl, rfl⟩
  | fetch =>
      obtain ⟨b, rfl⟩ := hf.store
      obtain ⟨e, rfl⟩ := herror rfl
      exact ⟨rfl, rfl⟩
  | readReplaced =>
      obtain ⟨c, rfl⟩ := hf.cache
      exact ⟨rfl, rfl⟩
  | save =>
      obtain ⟨b, rfl⟩ := hf.store
      obtain ⟨e, rfl⟩ := herror rfl
      exact ⟨rfl, rfl⟩
  | readDoomed =>
      obtain ⟨c, rfl⟩ := hf.cache
      exact ⟨rfl, rfl⟩
  | delete =>
      obtain ⟨b, rfl⟩ := hf.store
      obtain ⟨e, rfl⟩ := herror rfl
      exact ⟨rfl, rfl⟩
  | query =>
      obtain ⟨b, rfl⟩ := hf.store
      exact ⟨rfl, rfl⟩
  | getVersion =>
      obtain ⟨b, rfl⟩ := hf.store
      exact ⟨rfl, rfl⟩

theorem Stage.Asks.isIdle (h : st.Asks q) (hf : r.Fits (st.request w))
    (hr : ∀ a, r ≠ .store (.ok a)) : Encounter.IsIdle w ⟨st, r, f⟩ where
  cache := by
    intro q' hq
    cases h with
    | readEntry =>
        cases hq
        rfl
    | readReplaced =>
        cases hq
        rfl
    | readDoomed =>
        cases hq
        rfl
    | _ => cases hq
  fence := by cases h <;> exact nofun
  fences := (h.leaves hf hr).1
  spawned := (h.leaves hf hr).2

theorem Reply.Fits.request_store {q : Request} (h : (Reply.store b).Fits q) :
    ∃ q', q = .store q' := by
  cases q with
  | store q' => exact ⟨q', rfl⟩
  | cache q' => exact h.elim
  | fence id => exact h.elim

theorem storeCall?_eq_none {x : Encounter} (h : ∀ q, x.request w ≠ .store q) :
    x.storeCall? w = none := by
  simp only [Encounter.storeCall?]
  split
  · rename_i hq hr
    exact absurd hq (h _)
  · rfl

theorem storeCall?_eq_some {x : Encounter} (hq : x.request w = .store q) (hr : x.reply = .store b) :
    x.storeCall? w = some (q, b) := by
  simp only [Encounter.storeCall?, hq, hr]

namespace World

theorem Trace.of_brings (ht : W.Trace w past st xs b) (h : st.Brings a) :
    storeCalls w xs = [] ∧ b = .ok a := by
  induction ht with
  | @finish past st b hnext =>
      have hnone : (W.encounter w past st).storeCall? w = none := storeCall?_eq_none h.not_store
      exact ⟨by simp [storeCalls, hnone], h.results (results_of_next hnext)⟩
  | @proceed past xs st st' b hnext ht ih =>
      have hnone : (W.encounter w past st).storeCall? w = none := storeCall?_eq_none h.not_store
      obtain ⟨hcalls, hb⟩ := ih (h.successor (successor_of_next hnext))
      exact ⟨by simpa [storeCalls, hnone] using hcalls, hb⟩

theorem reply_of_asks (hpast : storeCalls w past = []) (hq : st.request w = .store q) :
    (W.encounter w past st).reply = .store (W.store [] q) := by
  simp only [encounter, hq, reply, hpast, List.map_nil]

/-- A call that has to ask the store does so once and returns the reply, or it is a read that the
cache has answered. -/
theorem Trace.of_asks (ht : W.Trace w past st xs b) (h : st.Asks q)
    (hpast : storeCalls w past = []) :
    (storeCalls w xs = [(q, b)] ∧ b = W.store [] q) ∨
      storeCalls w xs = [] ∧ ∃ id u, q = .get id ∧ Hit w xs id u ∧ b = .ok (.user u) := by
  induction ht with
  | @finish past st b hnext =>
      rcases h.results (results_of_next hnext) with ⟨hq, hr⟩ | ⟨id, u, c, hid, hq, hr, hu, hb⟩
      · have hcall : (W.encounter w past st).storeCall? w = some (q, b) :=
          storeCall?_eq_some hq hr
        have hreply := (hr.symm.trans (reply_of_asks hpast hq))
        exact Or.inl ⟨by simp [storeCalls, hcall], Reply.store.inj hreply⟩
      · have hnone : (W.encounter w past st).storeCall? w = none :=
          storeCall?_eq_none (Stage.request_ne_store hq)
        obtain ⟨bs, rfl, hread⟩ := entryRead_eq_some hu
        exact Or.inr ⟨by simp [storeCalls, hnone], id, u, hid,
          ⟨_, List.mem_singleton_self _, bs, hq, hr, hread⟩, hb⟩
  | @proceed past xs st st' b hnext ht ih =>
      rcases h.successor (successor_of_next hnext) with ⟨hasks, hq⟩ | ⟨hq, a, hr, hbrings⟩
      · have hnone : (W.encounter w past st).storeCall? w = none := storeCall?_eq_none hq
        have hpast' : storeCalls w (past ++ [W.encounter w past st]) = [] := by
          simpa [storeCalls, hnone] using hpast
        rcases ih hasks hpast' with ⟨hcalls, hb⟩ | ⟨hcalls, id, u, hid, ⟨x, hx, hhit⟩, hb⟩
        · exact Or.inl ⟨by simpa [storeCalls, hnone] using hcalls, hb⟩
        · exact Or.inr ⟨by simpa [storeCalls, hnone] using hcalls, id, u, hid,
            ⟨x, List.mem_cons_of_mem _ hx, hhit⟩, hb⟩
      · obtain ⟨hcalls, rfl⟩ := ht.of_brings hbrings
        have hcall : (W.encounter w past st).storeCall? w = some (q, .ok a) :=
          storeCall?_eq_some hq hr
        have hreply := (hr.symm.trans (reply_of_asks hpast hq))
        refine Or.inl ⟨?_, Reply.store.inj hreply⟩
        simpa [storeCalls, hcall] using hcalls

theorem Trace.isIdle (ht : W.Trace w past st xs b) (h : st.Asks q) {e : UserError}
    (hb : b = .error e) : ∀ x ∈ xs, x.IsIdle w := by
  induction ht with
  | @finish past st b hnext =>
      intro x hx
      obtain rfl := List.mem_singleton.mp hx
      refine h.isIdle (W.fits_reply w past _) ?_
      intro a ha
      rcases h.results (results_of_next hnext) with ⟨-, hr⟩ | ⟨id, u, c, -, -, hr, -⟩
      · have hsame := hr.symm.trans ha
        cases hsame
        cases hb
      · have hsame := hr.symm.trans ha
        cases hsame
  | @proceed past xs st st' b hnext ht ih =>
      rcases h.successor (successor_of_next hnext) with ⟨hasks, hq⟩ | ⟨hq, a, hr, hbrings⟩
      · intro x hx
        rcases List.mem_cons.mp hx with rfl | hx
        · refine h.isIdle (W.fits_reply w past _) ?_
          intro a ha
          have hfits := W.fits_reply w past (st.request w)
          rw [show W.reply w past (st.request w) = .store (.ok a) from ha] at hfits
          obtain ⟨q', hq'⟩ := hfits.request_store
          exact hq q' hq'
        · exact ih hasks hb x hx
      · obtain ⟨-, hok⟩ := ht.of_brings hbrings
        rw [hb] at hok
        cases hok

theorem heard_of_mem {E : List Encounter} (h : ⟨st, r, f⟩ ∈ E) :
    st.RepliedFrom w (.heard w E) r := by
  rcases r with c | b | _
  · cases st with
    | readEntry id n p => exact fun _ _ => trivial
    | _ => trivial
  · have hall : ∀ q, st.request w = .store q → (q, b) ∈ storeCalls w E := fun q hq =>
      List.mem_filterMap.mpr ⟨⟨st, .store b, f⟩, h, storeCall?_eq_some hq rfl⟩
    cases st <;> exact hall
  · cases st <;> trivial

theorem Trace.answers {E : List Encounter} (ht : W.Trace w past st xs b) (hE : xs ⊆ E)
    (h : st.Reads (.heard w E) q) : (Sources.heard w E).Answers q b := by
  induction ht with
  | @finish past st b hnext =>
      exact (results_of_next hnext).answers h (heard_of_mem (hE (List.mem_singleton_self _)))
  | @proceed past xs st st' b hnext ht ih =>
      have hmem := hE (List.mem_cons_self ..)
      refine ih (fun x hx => hE (List.mem_cons_of_mem _ hx))
        ((successor_of_next hnext).reads h (heard_of_mem hmem) ?_)
      rintro email n c rfl hr id hid
      exact ⟨_, hmem, c, rfl, hr, hid⟩

theorem asks_of_starts {q : StoreRequest} {f : Fences}
    (h : (Job.request q).Starts w f st) (hq : ∀ email, q ≠ .getByEmail email) : st.Asks q := by
  cases h with
  | readIndex hw => exact absurd rfl (hq _)
  | fetchByEmail hw => exact absurd rfl (hq _)
  | read hw => exact .readEntry
  | fetch hw => exact .fetch
  | replace hw => exact .readReplaced
  | save hw => exact .save
  | doom hw => exact .readDoomed
  | delete hw => exact .delete
  | query => exact .query
  | getVersion => exact .getVersion

theorem Trace.of_isWriteBack (ht : W.Trace w past st xs b) (h : st.IsWriteBack) :
    storeCalls w xs = [] := by
  induction ht with
  | @finish past st b hnext =>
      have hnone : (W.encounter w past st).storeCall? w = none :=
        storeCall?_eq_none fun q => h.request_ne
      simp [storeCalls, hnone]
  | @proceed past xs st st' b hnext ht ih =>
      have hnone : (W.encounter w past st).storeCall? w = none :=
        storeCall?_eq_none fun q => h.request_ne
      simpa [storeCalls, hnone] using ih ((successor_of_next hnext).isWriteBack h)

theorem Trace.isWriteBack (ht : W.Trace w past st xs b) {x : Encounter} (hx : x ∈ xs)
    (hst : (x.turn w).spawned = some st') : st'.IsWriteBack := by
  have hspawned : ∀ {past st}, ((W.encounter w past st).turn w).spawned = some st' →
      st'.IsWriteBack := by
    intro past st h
    obtain ⟨u, n, rfl, -⟩ := (turn_leadsTo st (W.fits_reply w past _)).spawned st' h
    trivial
  induction ht with
  | finish hnext =>
      obtain rfl := List.mem_singleton.mp hx
      exact hspawned hst
  | proceed hnext ht ih =>
      rcases List.mem_cons.mp hx with rfl | hx
      · exact hspawned hst
      · exact ih hx

def encounters (W : World) (w : Wiring) (q : StoreRequest) : List Encounter :=
  (W.perform w (.request q)).1

def result (W : World) (w : Wiring) (q : StoreRequest) : StoreReply :=
  (W.perform w (.request q)).2

def calls (W : World) (w : Wiring) (q : StoreRequest) : List (StoreRequest × StoreReply) :=
  storeCalls w (W.encounters w q)

theorem trace_of_starts (W : World) (w : Wiring) (q : StoreRequest) :
    ∃ st, (Job.request q).Starts w (W.fences []) st ∧
      W.Trace w [] st (W.encounters w q) (W.result w q) :=
  W.trace_perform w q

theorem trace_of_asks (W : World) (w : Wiring) (hq : ∀ email, q ≠ .getByEmail email) :
    ∃ st, st.Asks q ∧ W.Trace w [] st (W.encounters w q) (W.result w q) := by
  obtain ⟨st, hstarts, ht⟩ := W.trace_of_starts w q
  exact ⟨st, asks_of_starts hstarts hq, ht⟩

theorem calls_of_not_isRead (W : World) (w : Wiring) (hq : ¬ q.IsRead) :
    W.calls w q = [(q, W.store [] q)] ∧ W.result w q = W.store [] q := by
  have hne : ∀ email, q ≠ .getByEmail email := by
    rintro email rfl
    exact hq trivial
  obtain ⟨st, hasks, ht⟩ := W.trace_of_asks w hne
  rcases ht.of_asks hasks rfl with ⟨hcalls, hresult⟩ | ⟨-, id, u, rfl, -⟩
  · exact ⟨hresult ▸ hcalls, hresult⟩
  · exact absurd trivial hq

theorem calls_get (W : World) (w : Wiring) (id : Uuid) :
    (W.calls w (.get id) = [] ∧
      ∃ u, Hit w (W.encounters w (.get id)) id u ∧ W.result w (.get id) = .ok (.user u)) ∨
      W.calls w (.get id) = [(.get id, W.store [] (.get id))] ∧
        W.result w (.get id) = W.store [] (.get id) := by
  obtain ⟨st, hasks, ht⟩ := W.trace_of_asks w (q := .get id) (by simp)
  rcases ht.of_asks hasks rfl with ⟨hcalls, hresult⟩ | ⟨hcalls, id', u, hid, hhit, hresult⟩
  · exact Or.inr ⟨hresult ▸ hcalls, hresult⟩
  · cases hid
    exact Or.inl ⟨hcalls, u, hhit, hresult⟩

theorem calls_getByEmail {email : String} {e : UserError} (W : World) (hw : w.isNone = false)
    (hb : W.result w (.getByEmail email) = .error e) :
    (.getByEmail email, .error e) ∈ W.calls w (.getByEmail email) ∨
      ∃ id, Named w (W.encounters w (.getByEmail email)) email id ∧
        (.get id, .error e) ∈ W.calls w (.getByEmail email) ∧ ∀ id', e ≠ .notFound id' := by
  obtain ⟨st, hstarts, ht⟩ := W.trace_of_starts w (.getByEmail email)
  have hreads := hstarts.reads (o := .heard w (W.encounters w (.getByEmail email))) hw rfl
    fun h => h
  have hanswers := ht.answers (List.Subset.refl _) hreads
  rw [hb] at hanswers
  cases hanswers with
  | @failed _ id _ hi h he =>
      cases h with
      | store h => exact Or.inr ⟨id, hi id rfl, h, he⟩
  | found hm h => exact Or.inl h

end World

/-- What the callers of a store with a cache come to see of it, in a world. -/
structure Independent (w : Wiring) (W : World) : Prop where
  /-- Writes, queries and reads of versions are one call of the store each, and return its
  result. -/
  passed : ∀ q, ¬ q.IsRead →
    W.calls w q = [(q, W.store [] q)] ∧ W.result w q = W.store [] q
  /-- In a world with the same store they are the same. -/
  same : ∀ (W' : World) q, W'.store = W.store → ¬ q.IsRead →
    W'.calls w q = W.calls w q ∧ W'.result w q = W.result w q
  /-- A read returns what is in the entry of the user, or it is one call of the store. -/
  get : ∀ id,
    (W.calls w (.get id) = [] ∧
      ∃ u, Hit w (W.encounters w (.get id)) id u ∧ W.result w (.get id) = .ok (.user u)) ∨
      W.calls w (.get id) = [(.get id, W.store [] (.get id))] ∧
        W.result w (.get id) = W.store [] (.get id)
  /-- A lookup by email fails only with an error of the store, and not because the user is lost
  that the index names. -/
  getByEmail : ∀ email e, W.result w (.getByEmail email) = .error e →
    (.getByEmail email, .error e) ∈ W.calls w (.getByEmail email) ∨
      ∃ id, Named w (W.encounters w (.getByEmail email)) email id ∧
        (.get id, .error e) ∈ W.calls w (.getByEmail email) ∧ ∀ id', e ≠ .notFound id'
  /-- Every error is one of the store. -/
  error : ∀ q e, W.result w q = .error e → ∃ q', (q', .error e) ∈ W.calls w q
  /-- Any other call that the store fails leaves the cache and the fences alone. -/
  idle : ∀ q q' e, (∀ email, q ≠ .getByEmail email) → (q', .error e) ∈ W.calls w q →
    ∀ x ∈ W.encounters w q, x.IsIdle w
  /-- What goes on when a call has returned makes no call of the store, whatever it meets. -/
  writeBack : ∀ q x st, x ∈ W.encounters w q → (x.turn w).spawned = some st →
    ∀ (W' : World) past, storeCalls w (W'.follow w past st).1 = []

/-- Whatever the store, whatever the cache does, be it to fail or to make things up, and however
the fences stand, callers come to see nothing but this. -/
theorem independent_of_cache (cfg : UserCacheConfig) (W : World) : Independent (some cfg) W where
  passed q hq := W.calls_of_not_isRead (some cfg) hq
  same := by
    intro W' q hstore hq
    obtain ⟨hcalls, hresult⟩ := W.calls_of_not_isRead (some cfg) hq
    obtain ⟨hcalls', hresult'⟩ := W'.calls_of_not_isRead (some cfg) hq
    rw [hcalls, hcalls', hresult, hresult', hstore]
    exact ⟨rfl, rfl⟩
  get id := W.calls_get (some cfg) id
  getByEmail email e hb := W.calls_getByEmail rfl hb
  error := by
    intro q e hb
    by_cases hq : ∃ email, q = .getByEmail email
    · obtain ⟨email, rfl⟩ := hq
      rcases W.calls_getByEmail rfl hb with h | ⟨id, -, h, -⟩
      · exact ⟨_, h⟩
      · exact ⟨_, h⟩
    · obtain ⟨st, hasks, ht⟩ := W.trace_of_asks (some cfg) fun email he => hq ⟨email, he⟩
      rcases ht.of_asks hasks rfl with ⟨hcalls, -⟩ | ⟨-, id, u, -, -, hok⟩
      · exact ⟨q, by simp [World.calls, hcalls, hb]⟩
      · rw [hb] at hok
        cases hok
  idle := by
    intro q q' e hq hcall
    obtain ⟨st, hasks, ht⟩ := W.trace_of_asks (some cfg) hq
    rw [World.calls] at hcall
    rcases ht.of_asks hasks rfl with ⟨hcalls, -⟩ | ⟨hcalls, -⟩
    · rw [hcalls] at hcall
      obtain ⟨-, hb⟩ := Prod.mk.inj (List.mem_singleton.mp hcall)
      exact ht.isIdle hasks hb.symm
    · rw [hcalls] at hcall
      cases hcall
  writeBack := by
    intro q x st hx hst W' past
    obtain ⟨st₀, -, ht⟩ := W.trace_of_starts (some cfg) q
    exact (W'.trace_follow (some cfg) past st).of_isWriteBack (ht.isWriteBack hx hst)

end UserDirectory
