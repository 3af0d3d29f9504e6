import UserDirectory.Proofs.Cached.Origin
import UserDirectory.Proofs.Directory.Writes

namespace UserDirectory

open UserDirectory.Json

/-- What entries of users may say, what the index may say of an email, and what the store may
reply to a request. -/
structure Sources where
  entry : Uuid → User → Prop
  index : String → Option Uuid → Prop
  reply : StoreRequest → StoreReply → Prop

namespace Sources

/-- The replies that there may be to a request for an id. -/
inductive Gives (o : Sources) (id : Uuid) : StoreReply → Prop
  | entry {u : User} (h : o.entry id u) : o.Gives id (.ok (.user u))
  | store {r : StoreReply} (h : o.reply (.get id) r) : o.Gives id r

/-- Whether the index may be of no use for an email. -/
inductive Misses (o : Sources) (email : String) : Prop
  | unindexed (hi : o.index email none)
  | stale {id : Uuid} {u : User} (hi : o.index email (some id))
      (h : o.Gives id (.ok (.user u))) (he : u.email ≠ email)
  | lost {id id' : Uuid} (hi : o.index email (some id)) (h : o.Gives id (.error (.notFound id')))

/-- The replies that a read may give. -/
inductive Answers (o : Sources) : StoreRequest → StoreReply → Prop
  | get {id : Uuid} {r : StoreReply} (h : o.Gives id r) : o.Answers (.get id) r
  /-- The user that the index names has the email. -/
  | confirmed {email : String} {id : Uuid} {u : User} (hi : o.index email (some id))
      (h : o.Gives id (.ok (.user u))) (he : u.email = email) :
      o.Answers (.getByEmail email) (.ok (.user u))
  | passed {email : String} {id : Uuid} {a : StoreAnswer} (hi : o.index email (some id))
      (h : o.Gives id (.ok a)) (ha : ∀ u, a ≠ .user u) : o.Answers (.getByEmail email) (.ok a)
  | failed {email : String} {id : Uuid} {e : UserError} (hi : o.index email (some id))
      (h : o.Gives id (.error e)) (he : ∀ id', e ≠ .notFound id') :
      o.Answers (.getByEmail email) (.error e)
  | found {email : String} {r : StoreReply} (hm : o.Misses email)
      (h : o.reply (.getByEmail email) r) : o.Answers (.getByEmail email) r
  | query {p : QueryParams} {r : StoreReply} (h : o.reply (.query p) r) : o.Answers (.query p) r
  | getVersion {v : Uuid} {r : StoreReply} (h : o.reply (.getVersion v) r) :
      o.Answers (.getVersion v) r

end Sources

/-- Whether a purpose belongs to a read that has come to ask for an id. -/
def Purpose.AsksFor (o : Sources) (q : StoreRequest) (id : Uuid) : Purpose → Prop
  | .answer => q = .get id
  | .confirm email _ => q = .getByEmail email ∧ o.index email (some id)
  | .amend _ => False

/-- Whether a user may be handed over to a purpose of a read. -/
def Purpose.Takes (o : Sources) (q : StoreRequest) (u : User) : Purpose → Prop
  | .answer => o.Answers q (.ok (.user u))
  | .confirm email _ =>
    q = .getByEmail email ∧ ∃ id, o.index email (some id) ∧ o.Gives id (.ok (.user u))
  | .amend _ => False

/-- Whether a stage is one of a read, and what it carries is from the sources. -/
def Stage.Reads (o : Sources) (q : StoreRequest) : Stage → Prop
  | .readEntry id _ p | .fetch id _ p => p.AsksFor o q id
  | .readIndex email _ => q = .getByEmail email
  | .fetchByEmail email _ | .dropIndex _ (.lookUp email _) =>
    q = .getByEmail email ∧ o.Misses email
  | .awaitWrite u _ (some p) | .writeEntry u (some p) | .writeIndex u (some p) => p.Takes o q u
  | .query p => q = .query p
  | .getVersion v => q = .getVersion v
  | _ => False

def indexRead : CacheReply → Option Uuid
  | .ok (.bytes bs) => (Codec.uuid.ofEntry bs).toOption
  | _ => none

/-- Whether a reply that a stage gets is from the sources, but for replies of the index. -/
def Stage.RepliedFrom (w : Wiring) (o : Sources) : Stage → Reply → Prop
  | .readEntry id _ _, .cache c => ∀ u, (entryRead id c).1 = some u → o.entry id u
  | st, .store r => ∀ q, st.request w = .store q → o.reply q r
  | _, _ => True

/-- Whether the reply that a task has got, if any, is from the sources. -/
def Process.RepliedFrom (w : Wiring) (o : Sources) (p : Process) : Prop :=
  ∀ r, p.standing = .replied r → p.stage.RepliedFrom w o r

/-- Whether a task serves a read, and has what it has from the sources. -/
def Process.Reads (w : Wiring) (o : Sources) (q : StoreRequest) (p : Process) : Prop :=
  p.stage.Reads o q ∧ p.RepliedFrom w o

variable {w : Wiring} {f : Fences} {o : Sources} {q : StoreRequest} {u : User} {p : Purpose}
  {st st' : Stage} {r : Reply} {id : Uuid}

theorem indexRead_eq_some_iff {c : CacheReply} :
    indexRead c = some id ↔ ∃ bs, c = .ok (.bytes bs) ∧ Codec.uuid.ofEntry bs = .ok id := by
  rcases c with e | a
  · simp [indexRead]
  · cases a with
    | bytes bs => rcases hid : Codec.uuid.ofEntry bs <;> simp [indexRead, hid, Except.toOption]
    | stored => simp [indexRead]
    | removed found => simp [indexRead]

theorem indexRead_eq_none {c : CacheReply}
    (h : ∀ bs id, c = .ok (.bytes bs) → Codec.uuid.ofEntry bs ≠ .ok id) : indexRead c = none := by
  refine Option.eq_none_iff_forall_ne_some.mpr ?_
  intro id hread
  obtain ⟨bs, hc, hid⟩ := indexRead_eq_some_iff.mp hread
  exact h bs id hc hid

theorem Purpose.AsksFor.takes (h : p.AsksFor o q id) (hu : o.Gives id (.ok (.user u))) :
    p.Takes o q u := by
  cases p with
  | answer =>
      obtain rfl : q = .get id := h
      exact .get hu
  | confirm email n => exact ⟨h.1, id, h.2, hu⟩
  | amend patch => exact h.elim

theorem Purpose.Takes.continues (h : p.Takes o q u) (hs : p.Continues w u st') :
    st'.Reads o q := by
  cases hs with
  | saving => exact h.elim
  | replacing => exact h.elim
  | stale he =>
      obtain ⟨hq, id, hi, hu⟩ := h
      exact ⟨hq, .stale hi hu he⟩

theorem Purpose.Takes.yields (h : p.Takes o q u) {a : StoreReply} (ha : p.Yields u a) :
    o.Answers q a := by
  cases ha with
  | answer => exact h
  | confirm he =>
      obtain ⟨rfl, id, hi, hu⟩ := h
      exact .confirmed hi hu he

theorem Purpose.AsksFor.passed {a : StoreAnswer} (h : p.AsksFor o q id)
    (hr : o.Gives id (.ok a)) (ha : ∀ u, a ≠ .user u) : o.Answers q (.ok a) := by
  cases p with
  | answer =>
      obtain rfl : q = .get id := h
      exact .get hr
  | confirm email n =>
      obtain ⟨rfl, hi⟩ := h
      exact .passed hi hr ha
  | amend patch => exact h.elim

theorem Purpose.AsksFor.failed {e : UserError} (h : p.AsksFor o q id)
    (hr : o.Gives id (.error e)) (he : ∀ email n id', p = .confirm email n → e ≠ .notFound id') :
    o.Answers q (.error e) := by
  cases p with
  | answer =>
      obtain rfl : q = .get id := h
      exact .get hr
  | confirm email n =>
      obtain ⟨rfl, hi⟩ := h
      exact .failed hi hr fun id' => he email n id' rfl
  | amend patch => exact h.elim

theorem Stage.Successor.reads (h : st.Successor w f r st') (hs : st.Reads o q)
    (hr : st.RepliedFrom w o r)
    (hi : ∀ email n c, st = .readIndex email n → r = .cache c → o.index email (indexRead c)) :
    st'.Reads o q := by
  cases h with
  | hit hu hc => exact (Purpose.AsksFor.takes hs (.entry (hr _ hu))).continues hc
  | miss hu => exact hs
  | populating => exact Purpose.AsksFor.takes hs (.store (hr _ rfl))
  | fetched hc => exact (Purpose.AsksFor.takes hs (.store (hr _ rfl))).continues hc
  | lost =>
      obtain ⟨hq, hindex⟩ := hs
      exact ⟨hq, .lost hindex (.store (hr _ rfl))⟩
  | @indexed email n bs id hid =>
      refine ⟨hs, ?_⟩
      have hread : indexRead (.ok (.bytes bs)) = some id :=
        indexRead_eq_some_iff.mpr ⟨bs, rfl, hid⟩
      exact hread ▸ hi _ _ _ rfl rfl
  | unindexed hunread =>
      refine ⟨hs, .unindexed ?_⟩
      exact indexRead_eq_none hunread ▸ hi _ _ _ rfl rfl
  | found =>
      obtain ⟨rfl, hm⟩ := hs
      exact .found hm (hr _ rfl)
  | @admitted v n p? hn => cases p? <;> exact hs
  | skipped hn hc => exact Purpose.Takes.continues hs hc
  | @entryWritten v p? a he => cases p? <;> exact hs
  | written hc => exact Purpose.Takes.continues hs hc
  | indexWritten hc => exact Purpose.Takes.continues hs hc
  | lookingUp => exact hs
  | _ => exact hs.elim

theorem Stage.Results.answers {a : StoreReply} (h : st.Results w r a) (hs : st.Reads o q)
    (hr : st.RepliedFrom w o r) : o.Answers q a := by
  cases h with
  | hit hu ha => exact (Purpose.AsksFor.takes hs (.entry (hr _ hu))).yields ha
  | fetched ha => exact (Purpose.AsksFor.takes hs (.store (hr _ rfl))).yields ha
  | passed ha => exact Purpose.AsksFor.passed hs (.store (hr _ rfl)) ha
  | failed he => exact Purpose.AsksFor.failed hs (.store (hr _ rfl)) he
  | found =>
      obtain ⟨rfl, hm⟩ := hs
      exact .found hm (hr _ rfl)
  | skipped ha => exact Purpose.Takes.yields hs ha
  | written ha => exact Purpose.Takes.yields hs ha
  | indexWritten ha => exact Purpose.Takes.yields hs ha
  | query =>
      obtain rfl : q = .query _ := hs
      exact .query (hr _ rfl)
  | getVersion =>
      obtain rfl : q = .getVersion _ := hs
      exact .getVersion (hr _ rfl)
  | _ => exact hs.elim

theorem Job.Starts.reads {j : Job} (h : j.Starts w f st) (hw : w.isNone = false)
    (hj : j = .request q) (hq : ¬ q.IsWrite) : st.Reads o q := by
  subst hj
  cases h with
  | read => exact rfl
  | readIndex => exact rfl
  | query => exact rfl
  | getVersion => exact rfl
  | replace => exact absurd trivial hq
  | doom => exact absurd trivial hq
  | save => exact absurd trivial hq
  | delete => exact absurd trivial hq
  | fetch hnone =>
      rw [hw] at hnone
      cases hnone
  | fetchByEmail hnone =>
      rw [hw] at hnone
      cases hnone

theorem Stage.Reads.process {sd : Standing} (h : st.Reads o q)
    (hsd : ∀ r, sd = .replied r → r = .granted) : Process.Reads w o q ⟨st, sd⟩ := by
  refine ⟨h, fun r hr => ?_⟩
  rw [hsd r hr]
  cases st <;> trivial

theorem entryRead_eq_some {c : CacheReply} (h : (entryRead id c).1 = some u) :
    ∃ bs, c = .ok (.bytes bs) ∧ User.codec.ofEntry bs = .ok u := by
  rcases c with e | a
  · cases e <;> cases h
  · cases a with
    | bytes bs =>
        refine ⟨bs, rfl, ?_⟩
        simp only [entryRead] at h
        split at h
        · rename_i v hv
          cases h
          exact hv
        · cases h
    | stored => cases h
    | removed found => cases h

theorem Stage.Reads.not_isWrite {q' : StoreRequest} (h : st.Reads o q)
    (hq : st.request w = .store q') : ¬ q'.IsWrite := by
  cases st with
  | save u replaced => exact h.elim
  | delete id email => exact h.elim
  | fetch id n p =>
      cases hq
      exact fun hw => hw
  | fetchByEmail email n =>
      cases hq
      exact fun hw => hw
  | query p =>
      cases hq
      exact fun hw => hw
  | getVersion v =>
      cases hq
      exact fun hw => hw
  | _ => cases hq

theorem Stage.repliedFrom_store {a : StoreReply} {q' : StoreRequest} (hq : st.request w = .store q')
    (ha : o.reply q' a) : st.RepliedFrom w o (.store a) := by
  have hall : ∀ q, st.request w = .store q → o.reply q a := by
    intro q hq'
    rw [hq] at hq'
    cases hq'
    exact ha
  cases st <;> exact hall

namespace System

variable {mint : Mint} {s s' : System} {es : List Event} {t : TaskId}

/-- Whether a step of a system tells a task nothing but what is from the sources. -/
structure Supplies (mint : Mint) (s : System) (es : List Event) (t : TaskId) (o : Sources) :
    Prop where
  entry : ∀ {id bs u}, s.cache.get? s.now (CacheKey.user id) = some bs →
    User.codec.ofEntry bs = .ok u → o.entry id u
  index : ∀ {email n c}, .turned t (.readIndex email n) (.cache c) ∈ es →
    o.index email (indexRead c)
  reply : ∀ {q}, ¬ q.IsWrite → .served t q (s.store.serve mint q).1 ∈ es →
    o.reply q (s.store.serve mint q).1
  refusal : ∀ {q e}, ¬ q.IsWrite → .refused t q e ∈ es → o.reply q (.error e)

theorem Supplies.repliedFrom {c : CacheReply} {q' : CacheRequest} (h : s.Supplies mint es t o)
    (hq : st.request w = .cache q')
    (hc : (∃ e, c = .error e) ∨ c = (s.cache.serve s.now q').1) :
    st.RepliedFrom w o (.cache c) := by
  cases st with
  | readEntry id n p =>
      cases hq
      intro u hu
      obtain ⟨bs, rfl, hread⟩ := entryRead_eq_some hu
      rcases hc with ⟨e, hc⟩ | hc
      · cases hc
      · simp only [MemoryCache.serve] at hc
        rcases hget : s.cache.get? s.now (CacheKey.user id) with _ | bs'
        · rw [hget] at hc
          cases hc
        · rw [hget] at hc
          cases hc
          exact h.entry hget hread
  | _ => trivial

theorem Origin.repliedFrom {p : Process} (hp : Origin w mint s es s' t p)
    (hsrc : s.Supplies mint es t o)
    (hwrite : ∀ st sd q, s.tasks t = some ⟨st, sd⟩ → st.request w = .store q → q.IsWrite →
      ∀ r, o.reply q r)
    (h : ∀ p, s.tasks t = some p → p.RepliedFrom w o) : p.RepliedFrom w o := by
  have hstore : ∀ {st q a}, s.tasks t = some ⟨st, .ready⟩ → st.request w = .store q →
      (¬ q.IsWrite → o.reply q a) → Process.RepliedFrom w o ⟨st, .replied (.store a)⟩ := by
    rintro st q a hst hq ha r ⟨⟩
    refine Stage.repliedFrom_store hq ?_
    by_cases hw : q.IsWrite
    · exact hwrite st _ q hst hq hw a
    · exact ha hw
  cases hp with
  | same hst => exact h _ hst
  | begun hj hu hes => rintro r ⟨⟩
  | spawned hu hst hn => rintro r ⟨⟩
  | turned hst hnext hes hs' => rintro r ⟨⟩
  | queued hst ha => rintro r ⟨⟩
  | @granted st sd hst ha =>
      rintro r ⟨⟩
      cases st <;> trivial
  | exchanged hst hq hes hcache =>
      rintro r ⟨⟩
      exact hsrc.repliedFrom hq (Or.inr rfl)
  | failed hst hq hes =>
      rintro r ⟨⟩
      exact hsrc.repliedFrom hq (Or.inl ⟨_, rfl⟩)
  | served hst hq hes => exact hstore hst hq fun hw => hsrc.reply hw (by simp [hes])
  | refused hst hq hkind hes => exact hstore hst hq fun hw => hsrc.refusal hw (by simp [hes])

theorem Origin.reads {p : Process} (hp : Origin w mint s es s' t p) (ho : Tidy w s)
    (hsrc : s.Supplies mint es t o) (ht : t < s.nextTask)
    (h : ∀ p, s.tasks t = some p → p.Reads w o q) : p.Reads w o q := by
  refine ⟨?_, hp.repliedFrom hsrc ?_ fun p hp => (h p hp).2⟩
  · rcases hp.stage_cases ho with
      ⟨sd, hst⟩ | ⟨j, hu, -⟩ | ⟨u, n, hu, -⟩ | ⟨st, r, st', hst, hes, hsucc, rfl⟩
    · exact (h _ hst).1
    · exact absurd hu (Nat.ne_of_lt ht)
    · exact absurd hu (Nat.ne_of_lt ht)
    · refine hsucc.reads (h _ hst).1 ((h _ hst).2 _ rfl) ?_
      rintro email n c rfl rfl
      exact hsrc.index (hes ▸ List.mem_singleton_self _)
  · intro st sd q' hst hq hw
    exact absurd hw ((h _ hst).1.not_isWrite hq)

theorem Step.reads (hs : Step w mint s es s') (ho : Tidy w s) (hsrc : s.Supplies mint es t o)
    (ht : t < s.nextTask) (h : ∀ p, s.tasks t = some p → p.Reads w o q) {p : Process}
    (hp : s'.tasks t = some p) : p.Reads w o q :=
  (hs.origin ho hp).reads ho hsrc ht h

/-- What a read returns is an answer from the sources. -/
theorem Step.answers (hs : Step w mint s es s') (ho : Tidy w s)
    (h : ∀ p, s.tasks t = some p → p.Reads w o q) {a : StoreReply} (hret : .returned t a ∈ es) :
    o.Answers q a := by
  cases hs with
  | @turn u st r hu =>
      rcases Next.of_mem_turned hret with he | ⟨a', hnext, he⟩
      · cases he
      · cases he
        obtain ⟨hstage, hreplied⟩ := h _ hu
        exact (ho.results hu hnext).answers hstage
          (hreplied _ rfl)
  | _ => simp at hret

end System

end UserDirectory
