import UserDirectory.Proofs.Cached.Schedule
import UserDirectory.Proofs.Cached.Series
import UserDirectory.Proofs.Cached.Solo

namespace UserDirectory

open UserDirectory.Json

def Event.request? : Event → Option StoreRequest
  | .began _ (.request q) => some q
  | _ => none

def requests (es : List Event) : List StoreRequest := es.filterMap Event.request?

def AllReturned (es : List Event) : Prop :=
  ∀ t j, .began t j ∈ es → ∃ r, .returned t r ∈ es

theorem allReturned_iff {es : List Event} : AllReturned es ↔ Returned (fun _ => True) es :=
  ⟨fun h t j hmem _ => h t j hmem, fun h t j hmem => h t j hmem trivial⟩

instance (es : List Event) : Decidable (AllReturned es) := decidable_of_iff' _ allReturned_iff

/-- Whether clients make requests one after the other, each when the one before has returned. -/
structure Serial (es : List Event) : Prop where
  requests : ∀ {t j}, .began t j ∈ es → ∃ q, j = .request q
  turns : ∀ {es₁ t j es₂}, es = es₁ ++ .began t j :: es₂ → AllReturned es₁

def Event.isRequested : Event → Bool
  | .began _ (.amend _ _) => false
  | _ => true

theorem serial_iff {es : List Event} :
    Serial es ↔ (∀ e ∈ es, e.isRequested = true) ∧ OneByOne (fun _ => True) es := by
  constructor
  · intro h
    refine ⟨fun e he => ?_, fun _ _ _ _ hes _ => allReturned_iff.mp (h.turns hes)⟩
    cases e with
    | began t j =>
        obtain ⟨q, rfl⟩ := h.requests he
        rfl
    | _ => rfl
  · rintro ⟨hrequested, hone⟩
    refine ⟨?_, fun hes => allReturned_iff.mpr (hone _ _ _ _ hes trivial)⟩
    intro t j hmem
    cases j with
    | request q => exact ⟨q, rfl⟩
    | amend id patch => cases hrequested _ hmem

instance (es : List Event) : Decidable (Serial es) := decidable_of_iff' _ serial_iff

/-- Whether nobody else writes the cache, the store is in service, and no removal of the entry of a
user fails. -/
structure Benign (es : List Event) : Prop where
  quiet : ∀ key, .meddled key ∉ es
  inService : ∀ t q e, .refused t q e ∉ es
  removed : ∀ t id e, .exchanged t (.remove (CacheKey.user id)) (.error e) ∉ es

/-- Whether a reply is the one that a store gives, or as good as that for an email: it says that
nobody has the email if the store does, and names a user that has it otherwise. -/
def Directory.Conforms (mint : Mint) (d : Directory) : StoreRequest → StoreReply → Prop
  | .getByEmail email, r =>
    (r = .error (.emailNotFound email) ↔
        (d.serve mint (.getByEmail email)).1 = .error (.emailNotFound email)) ∧
      (r ≠ .error (.emailNotFound email) →
        ∃ u, r = .ok (.user u) ∧ (d.serve mint (.get u.id)).1 = .ok (.user u) ∧ u.email = email)
  | q, r => r = (d.serve mint q).1

theorem Directory.conforms_congr {mint : Mint} {d d' : Directory} {q : StoreRequest}
    {r : StoreReply} (h : d'.contents = d.contents) :
    d'.Conforms mint q r ↔ d.Conforms mint q r := by
  have hserve : ∀ q, (d'.serve mint q).1 = (d.serve mint q).1 :=
    fun q => (Directory.serve_congr mint h q).1
  cases q <;> simp only [Directory.Conforms, hserve]

variable {es es₁ es₂ : List Event}

theorem Serial.of_prefix (h : Serial es) (hearly : es₁ <+: es) : Serial es₁ where
  requests hmem := h.requests (hearly.subset hmem)
  turns := by
    intro es₃ t j es₄ he
    obtain ⟨es₂, rfl⟩ := hearly
    subst he
    have hes : es₃ ++ .began t j :: es₄ ++ es₂ = es₃ ++ .began t j :: (es₄ ++ es₂) := by simp
    exact h.turns hes

theorem Serial.oneByOne (h : Serial es) : OneByOne (fun _ => True) es := (serial_iff.mp h).2

theorem Benign.of_subset (h : Benign es) (hsub : es₁ ⊆ es) : Benign es₁ where
  quiet key hk := h.quiet key (hsub hk)
  inService t q e he := h.inService t q e (hsub he)
  removed t id e he := h.removed t id e (hsub he)

theorem benign_of_faultless (h : ∀ e ∈ es, ¬ e.IsFault) : Benign es where
  quiet _ hk := h _ hk trivial
  inService _ _ _ he := h _ he trivial
  removed _ _ _ he := h _ he trivial

theorem requests_append (es es' : List Event) :
    requests (es ++ es') = requests es ++ requests es' :=
  List.filterMap_append

theorem requests_eq_nil (h : ∀ t j, .began t j ∉ es) : requests es = [] := by
  rw [requests, List.filterMap_eq_nil_iff]
  intro e he
  cases e with
  | began t j => exact absurd he (h t j)
  | _ => rfl

namespace System

variable {w : Wiring} {mint : Mint} {s s' : System} {t : TaskId} {j : Job} {q : StoreRequest}
  {a r : StoreReply}

variable {d : Directory} {E : List Event} {id : Uuid}

theorem gives_present (h : (present mint d E t).Gives id r) :
    r = (d.serve mint (.get id)).1 := by
  cases h with
  | entry hview =>
      have hview : d.view id = some _ := hview
      rw [Directory.serve_get, hview]
  | store hr => exact hr

theorem gives_cases (h : (present mint d E t).Gives id r) :
    (∃ u, r = .ok (.user u)) ∨ r = .error (.notFound id) := by
  rw [gives_present h, Directory.serve_get]
  cases d.view id with
  | none => exact Or.inr rfl
  | some u => exact Or.inl ⟨u, rfl⟩

theorem answers_getByEmail_cases {email : String}
    (h : (present mint d E t).Answers (.getByEmail email) a) :
    (∃ id u, (present mint d E t).index email (some id) ∧
        (d.serve mint (.get id)).1 = .ok (.user u) ∧ u.email = email ∧ a = .ok (.user u)) ∨
      (present mint d E t).Misses email ∧ a = (d.serve mint (.getByEmail email)).1 := by
  cases h with
  | confirmed hi hg he => exact Or.inl ⟨_, _, hi, (gives_present hg).symm, he, rfl⟩
  | passed hi hg ha =>
      rcases gives_cases hg with ⟨u, hu⟩ | hnone
      · cases hu
        exact absurd rfl (ha u)
      · cases hnone
  | failed hi hg he =>
      rcases gives_cases hg with ⟨u, hu⟩ | hnone
      · cases hu
      · cases hnone
        exact absurd rfl (he _)
  | found hm hr => exact Or.inr ⟨hm, hr⟩

theorem answers_conforms (hd : d.Sound mint) (h : (present mint d E t).Answers q a) :
    d.Conforms mint q a := by
  cases q with
  | getByEmail email =>
      rcases answers_getByEmail_cases h with ⟨id, u, -, hget, he, rfl⟩ | ⟨-, rfl⟩
      · have hview : d.view u.id = some u :=
          Directory.view_of_serve (q := .get id) hd trivial hget
        refine ⟨iff_of_false (by simp) ?_, fun _ => ⟨u, rfl, ?_, he⟩⟩
        · rw [hd.serve_getByEmail_eq_error]
          exact fun hnone => hnone u hview he
        · rw [Directory.serve_get, hview]
      · refine ⟨Iff.rfl, fun hne => ?_⟩
        rcases Directory.serve_getByEmail_cases mint d email with hnone | ⟨u, hu⟩
        · exact absurd hnone hne
        · obtain ⟨hview, he⟩ := Directory.serve_getByEmail_ok hd hu
          exact ⟨u, hu, by rw [Directory.serve_get, hview], he⟩
  | get id =>
      cases h with
      | get hg => exact gives_present hg
  | query p =>
      cases h with
      | query hr => exact hr
  | getVersion v =>
      cases h with
      | getVersion hr => exact hr
  | save u => cases h
  | delete id => cases h

theorem Call.none_began (c : Call w mint s es s' t j a) (h : Course w mint s es s')
    (hserial : Serial es) (u : TaskId) (j' : Job) : .began u j' ∉ c.during ++ c.returning :=
  fun hmem => c.not_began h hserial.oneByOne trivial u j' hmem trivial

theorem Call.serves (c : Call w mint s es s' t (.request q) a) (h : Course w mint s es s')
    (hw : w.isNone = false) (hserial : Serial es) (hbenign : Benign es) (hs : c.first.Settled) :
    c.next.Settled ∧ c.next.store.contents = (c.first.store.serve mint q).2.contents ∧
      c.first.store.Conforms mint q a := by
  have hown := hbenign.of_subset c.span_subset
  have hd := c.before.coherent.sound
  by_cases hq : q.IsWrite
  · obtain ⟨hnext, hcontents, ha⟩ := c.write h hw (List.Subset.refl _)
      (c.none_began h hserial) hown.inService hown.removed hq hs
    refine ⟨hnext, hcontents, ?_⟩
    cases q with
    | save u => exact ha
    | delete id => exact ha
    | _ => exact hq.elim
  · obtain ⟨hnext, hcontents, ha⟩ := c.read h hw (List.Subset.refl _)
      (c.none_began h hserial) hown.inService hq hs
    refine ⟨hnext, ?_, answers_conforms hd ha⟩
    rw [hcontents, Directory.contents_serve mint c.first.store hq]

/-- When all calls of a series have returned, the store holds what their requests have put into
it. -/
theorem Course.lockstep {d : Directory} (h : Course w mint s es s') (hw : w.isNone = false)
    (hserial : Serial es) (hbenign : Benign es) (hs : s.Settled)
    (hd : s.store.contents = d.contents) (hall : AllReturned es) :
    s'.Settled ∧ s'.store.contents = (d.serveAll mint (requests es)).contents := by
  refine h.by_calls
    (M := fun es x => x.Settled ∧ x.store.contents = (d.serveAll mint (requests es)).contents)
    hserial.oneByOne (allReturned_iff.mp hall) ⟨hs, hd⟩ ?_ ?_
  · rintro es₁ x es₂ y - hbeside hnone ⟨hx, hcontents⟩
    -- Between two calls only write-backs run, and these change nothing in the store.
    have hnone : ∀ t j, .began t j ∉ es₂ := fun t j hmem => hnone t j hmem trivial
    obtain ⟨hstore, hy⟩ := hbeside.settled hnone hx
    rw [hstore, requests_append, requests_eq_nil hnone, List.append_nil]
    exact ⟨hy, hcontents⟩
  · rintro es₁ y t j a c hearly hcourse - ⟨hfirst, hcontents⟩
    have hserial := hserial.of_prefix hearly
    obtain ⟨q, rfl⟩ := hserial.requests (t := t) (j := j) (by rw [c.events]; simp)
    obtain ⟨hnext, hserved, -⟩ :=
      c.serves hcourse hw hserial (hbenign.of_subset hearly.subset) hfirst
    have hpast : requests c.past = requests c.earlier ++ [q] := by
      have hspan : requests (c.during ++ c.returning) = [] :=
        requests_eq_nil (c.none_began hcourse hserial)
      rw [Call.past, requests_append]
      exact congrArg (requests c.earlier ++ q :: ·) hspan
    refine ⟨hnext, ?_⟩
    rw [hserved, hpast, Directory.serveAll_append]
    exact (Directory.serve_congr mint hcontents q).2

/-- What clients get from a store behind a cache, and what the store becomes, if it was `d` in the
beginning. -/
structure ReplacesStore (mint : Mint) (d : Directory) (es : List Event) (d' : Directory) :
    Prop where
  replies : ∀ {es₁ t q es₂ r}, es = es₁ ++ .began t (.request q) :: es₂ → .returned t r ∈ es →
    (d.serveAll mint (requests es₁)).Conforms mint q r
  contents : AllReturned es → d'.contents = (d.serveAll mint (requests es)).contents

/-- Clients that make their calls one after the other are served through the cache as by the store
alone. -/
theorem replaces_store {d : Directory} {cfg : UserCacheConfig} {m : Nat} (hd : d.Reachable mint)
    (h : Run (some cfg) mint { store := d, cache := { maxLifetime := m } } es s)
    (hm : mint.Fresh s.store.drawn) (hserial : Serial es) (hbenign : Benign es) :
    ReplacesStore mint d es s.store := by
  have hcourse := Course.of_run hd h hm hbenign.quiet
  have hstart := settled_start d { maxLifetime := m } fun _ => rfl
  constructor
  · intro es₁ t q es₂ r he hr
    obtain ⟨c, rfl⟩ := hcourse.call_of_returned he hr
    obtain ⟨hfirst, hcontents⟩ := c.before.lockstep rfl (hserial.of_prefix ⟨_, he.symm⟩)
      (hbenign.of_subset c.earlier_subset) hstart rfl (hserial.turns he)
    obtain ⟨-, -, hconforms⟩ := c.serves hcourse rfl hserial hbenign hfirst
    exact (Directory.conforms_congr hcontents).mp hconforms
  · exact fun hall => (hcourse.lockstep rfl hserial hbenign hstart rfl hall).2

/-- The version that a read has found is written back after a save has changed the email, and the
user is looked up by the email it had and by the one it has. -/
theorem replaces_store_of_changed_email :
    let mint : Mint := fun n => .ofNat (n + 1)
    let u : User := { id := mint 1, email := "b" }
    ∃ es s, Run (some {}) mint { store := {}, cache := { maxLifetime := 1000 } } es s ∧
      Serial es ∧ Benign es ∧ AllReturned es ∧ .returned 2 (.ok .done) ∈ es ∧
      .returned 4 (.error (.emailNotFound "a")) ∈ es ∧
      .returned 5 (.ok (.user { u with versionId := mint 2, isLatestVersion := true })) ∈ es ∧
      ReplacesStore mint {} es s.store := by
  intro mint u
  obtain ⟨es, s, h, hfaults, hend⟩ := Run.of_any (some {}) mint
    { store := {}, cache := { maxLifetime := 1000 } }
    ([.start (.request (.save { email := "a" }))] ++ List.replicate 8 (.advance 0) ++
      [.start (.request (.get (mint 1)))] ++ List.replicate 4 (.advance 1) ++
      [.start (.request (.save u))] ++ List.replicate 10 (.advance 3) ++
      List.replicate 2 (.advance 2) ++
      [.start (.request (.getByEmail "a"))] ++ List.replicate 4 (.advance 4) ++
      [.start (.request (.getByEmail "b"))] ++ List.replicate 4 (.advance 5))
    (fun x => x.2.store.drawn = 3 ∧ Serial x.1 ∧ AllReturned x.1 ∧ .returned 2 (.ok .done) ∈ x.1 ∧
      .returned 4 (.error (.emailNotFound "a")) ∈ x.1 ∧
      .returned 5 (.ok (.user { u with versionId := mint 2, isLatestVersion := true })) ∈ x.1)
    (by decide +kernel)
  obtain ⟨hdrawn, hserial, hall, h₂, h₄, h₅⟩ := of_decide_eq_true hend
  have hm : mint.Fresh s.store.drawn := by
    rw [hdrawn]
    decide +kernel
  have hbenign := benign_of_faultless hfaults
  exact ⟨es, s, h, hserial, hbenign, hall, h₂, h₄, h₅, replaces_store .empty h hm hserial hbenign⟩

end System

end UserDirectory
