import UserDirectory.Proofs.Cached.Amendment
import UserDirectory.Proofs.Cached.Schedule
import UserDirectory.Proofs.Cached.Series
import UserDirectory.Proofs.Cached.Sparing
import UserDirectory.Proofs.User.Patch

namespace UserDirectory

open UserDirectory.Json

/-- Whether a job is an update or a patch of a certain user. -/
def Job.Edits (id : Uuid) : Job → Prop
  | .request (.save u) => u.id = id
  | .amend id' _ => id' = id
  | _ => False

instance (id : Uuid) : DecidablePred (Job.Edits id)
  | .request (.save u) => inferInstanceAs (Decidable (u.id = id))
  | .amend id' _ => inferInstanceAs (Decidable (id' = id))
  | .request (.get _) | .request (.getByEmail _) | .request (.delete _) | .request (.query _)
  | .request (.getVersion _) => inferInstanceAs (Decidable False)

/-- What a job writes to a column of its user: an update writes to all of them, a patch to those
that it lists. -/
def Job.written? (c : Column) : Job → Option FieldValue
  | .request (.save u) => some (u.column c)
  | .amend _ p => p.value? c
  | _ => none

/-- What a column that held `x` holds after jobs, one after the other. -/
def columnAfter (c : Column) (js : List Job) (x : FieldValue) : FieldValue :=
  js.foldl (fun x j => (j.written? c).getD x) x

def succeeds (es : List Event) (t : TaskId) : Bool :=
  es.any fun | .returned u (.ok (.user _)) => t = u | _ => false

/-- The edit of a user that starts with an event, if it comes to return the user. -/
def Event.edit? (id : Uuid) (es : List Event) : Event → Option Job
  | .began t j => if j.Edits id ∧ succeeds es t = true then some j else none
  | _ => none

/-- The edits of a user that are made in a course of events and return it, in the order in which
they are made. -/
def edits (id : Uuid) (es : List Event) : List Job := es.filterMap (Event.edit? id es)

def Event.isDeletion : Event → Bool
  | .began _ (.request (.delete _)) => true
  | _ => false

/-- Whether the updates and patches of a user are made one after the other and are not thwarted: the
user is not deleted, and no removal of its entry from the cache fails. -/
structure EditedInTurn (id : Uuid) (es : List Event) : Prop where
  turns : OneByOne (Job.Edits id) es
  kept : ∀ t, .began t (.request (.delete id)) ∉ es
  removed : ∀ t e, .exchanged t (.remove (CacheKey.user id)) (.error e) ∉ es

/-- Whether a user is the one that a directory shows, if it is one with a certain id that there
is. -/
def Directory.Offers (d : Directory) (id : Uuid) (u : User) : Prop :=
  u.id = id → ∀ i, d.identity? id = some i → d.view id = some u

variable {d : Directory} {id : Uuid} {u v : User} {j : Job} {q : StoreRequest} {i : Identity}
  {patch : UserPatch} {c : Column}

theorem User.column_of_content (h : u.content = v.content) (hc : c ∈ contentColumns) :
    u.column c = v.column c := by
  have hcontent (u : User) : u.content.column c = u.column c := by
    cases c with
    | id => simp [contentColumns] at hc
    | versionId => simp [contentColumns] at hc
    | _ => rfl
  rw [← hcontent u, h, hcontent v]

theorem Job.Edits.isWrite (h : j.Edits id) : j.IsWrite := by
  cases j with
  | amend id' patch => trivial
  | request q =>
      cases q with
      | save u => trivial
      | _ => exact h.elim

theorem Job.spares_of_not_edits (h : ¬ j.Edits id) (hd : j ≠ .request (.delete id)) :
    j.Spares id := by
  cases j with
  | amend id' patch => exact h
  | request q =>
      cases q with
      | save u => exact h
      | delete id' =>
          rintro rfl
          exact hd rfl
      | _ => trivial

theorem EditedInTurn.of_prefix {es es₁ : List Event} (h : EditedInTurn id es)
    (hearly : es₁ <+: es) : EditedInTurn id es₁ where
  turns := h.turns.of_prefix hearly
  kept t hmem := h.kept t (hearly.subset hmem)
  removed t e he := h.removed t e (hearly.subset he)

theorem EditedInTurn.spares {es : List Event} {t : TaskId} (h : EditedInTurn id es)
    (hmem : .began t j ∈ es) (hj : ¬ j.Edits id) : j.Spares id := by
  refine Job.spares_of_not_edits hj ?_
  rintro rfl
  exact h.kept t hmem

theorem Job.Makes.save {P : User → Prop} (h : j.Makes (.holding P) q) (hj : j.Edits id) :
    ∃ u, q = .save u ∧ u.id = id := by
  cases h with
  | request =>
      cases q with
      | save u => exact ⟨u, rfl, hj⟩
      | _ => exact hj.elim
  | @amend id' patch u h =>
      obtain rfl : id' = id := hj
      exact ⟨u.apply patch, rfl, (h.holds rfl).1⟩

theorem Job.Makes.view (h : (Job.amend id patch).Makes (.holding (d.Offers id)) q)
    (hi : d.identity? id = some i) : ∃ v, d.view id = some v ∧ q = .save (v.apply patch) := by
  cases h with
  | @amend _ _ u h =>
      obtain ⟨hid, hu⟩ := h.holds rfl
      exact ⟨u, hu hid i hi, rfl⟩

theorem Job.Makes.edit (h : j.Makes (.holding (d.Offers id)) q) (hj : j.Edits id)
    (hv : d.view id = some v) :
    ∃ x, q = .save x ∧ ∀ c ∈ contentColumns, x.column c = (j.written? c).getD (v.column c) := by
  cases j with
  | amend id' patch =>
      obtain rfl : id' = id := hj
      obtain ⟨i, hi, -⟩ := Directory.view_eq_some_iff.mp hv
      obtain ⟨u, hu, rfl⟩ := h.view hi
      rw [hv] at hu
      cases hu
      exact ⟨_, rfl, fun c hc => User.column_apply hc v patch⟩
  | request q =>
      cases h
      cases q with
      | save u => exact ⟨u, rfl, fun _ _ => rfl⟩
      | _ => exact hj.elim

theorem succeeds_iff {es : List Event} {t : TaskId} :
    succeeds es t = true ↔ ∃ u, .returned t (.ok (.user u)) ∈ es := by
  rw [succeeds, List.any_eq_true]
  constructor
  · rintro ⟨e, he, hreturned⟩
    split at hreturned
    · rename_i t' u
      obtain rfl : t = t' := by simpa using hreturned
      exact ⟨u, he⟩
    · cases hreturned
  · rintro ⟨u, hmem⟩
    exact ⟨_, hmem, by simp⟩

theorem Event.edit?_eq_none {es part : List Event} (h : ∀ t j, .began t j ∈ part → ¬ j.Edits id) :
    part.filterMap (Event.edit? id es) = [] := by
  rw [List.filterMap_eq_nil_iff]
  intro e he
  cases e with
  | began t j => exact if_neg fun hj => h t j he hj.1
  | _ => rfl

namespace System

variable {w : Wiring} {mint : Mint} {s s' x : System} {es es₁ es₂ E : List Event} {t : TaskId}
  {a : StoreReply} {limit : Directory}

/-- Whether no task is about to change a user, and the cache has of the user only what the store
shows. -/
structure SettledOn (w : Wiring) (id : Uuid) (s : System) : Prop where
  spared : s.Spared w id none
  rid : s.Rid fun u => u.id = id ∧ s.store.Stale u

theorem settledOn_start (w : Wiring) (id : Uuid) (d : Directory) (m : Nat) :
    SettledOn w id { store := d, cache := { maxLifetime := m } } where
  spared t p hp := by cases hp
  rid :=
    { fenced := fun t p hp => by cases hp
      entries := fun he => by cases he }

theorem Course.settledOn (h : Course w mint s es s')
    (hspare : ∀ t j, .began t j ∈ es → j.Spares id) (hs : s.SettledOn w id) :
    s.store.Spares id s'.store ∧ s'.SettledOn w id := by
  refine h.inv (fun x => s.store.Spares id x.store ∧ x.SettledOn w id) (List.Subset.refl es)
    h.coherent.sound (.refl _) ?_ ⟨.refl id s.store, hs⟩
  rintro x es₁ x' hx ⟨hstore, hspared, hrid⟩
  have hkept : x.store.Spares id x'.store := hx.spares_store h.fresh hspared (by simp)
  refine ⟨hstore.trans hkept, hx.spared (fun t j hj _ => hspare t j (hx.seen hj)) hspared, ?_⟩
  exact (hx.rid (fun u hu => hu.2.2) hrid).of_imp fun u hu => ⟨hu.1, hkept.stale u hu.1 hu.2⟩

theorem Coherent.offers (hc : Coherent w mint s) (es : List Event) (t : TaskId)
    (hrid : s.Rid fun u => u.id = id ∧ d.Stale u) (hd : d.Spares id s.store) :
    s.Supplies mint es t (.holding (d.Offers id)) := by
  have hsame : ∀ {i}, d.identity? id = some i → d.identity? id = s.store.identity? id :=
    fun hi => hi.trans (hd.identity _ hi).symm
  refine hc.supplies es t ?_ ?_
  · rintro id' e u he hu rfl i hi
    have hv := hc.mem_history he hu
    have hid := hc.sound.id_of_mem_history hv
    by_contra hne
    refine hrid.entries he hu ⟨rfl, ?_, hne⟩
    rw [← hid, Directory.history, ← hsame hi] at hv
    exact hv
  · rintro id' u hu rfl i hi
    rw [hc.sound.id_of_view hu] at hi hsame ⊢
    rw [Directory.view, hsame hi]
    exact hu

theorem Stride.rid_stale_on (hs : Stride w mint E limit s es s') (hd : d.Sound mint)
    (hle : d.Extends s.store) (h : s.Rid fun u => u.id = id ∧ d.Stale u) :
    s'.Rid fun u => u.id = id ∧ d.Stale u :=
  hs.rid (fun _ hu => (hu.2.mono hd hle hs.coherent.sound).2) h

/-- The duty of a task that edits a user, which is as in `d` when the task starts. -/
def editing (E : List Event) (t : TaskId) (limit d : Directory) (id : Uuid) (s : System)
    (q : StoreRequest) : Duty :=
  clearing E t limit q (d.Spares id s.store)
    (fun r => d.Takes id s.store r ∧ ∀ u, r = .ok (.user u) → .served t q r ∈ E) s

/-- Whether all but one task spare a user, and the cache has of the user only what `d` shows. -/
structure Edited (w : Wiring) (E : List Event) (d : Directory) (id : Uuid) (t : TaskId)
    (s : System) : Prop where
  spared : s.Spared w id (some t)
  rid : s.Rid fun u => u.id = id ∧ d.Stale u
  grows : d.Extends s.store
  reported : s.Reported E t

theorem Stride.edited (hs : Stride w mint E limit s es s') (hd : d.Sound mint)
    (hspare : ∀ u j, .began u j ∈ E → j.Spares id) (h : s.Edited w E d id t) :
    s'.Edited w E d id t where
  spared := hs.spared (fun u j hj _ => hspare u j (hs.seen hj)) h.spared
  rid := hs.rid_stale_on hd h.grows h.rid
  grows := h.grows.trans hs.grows
  reported := hs.reported h.reported

theorem Stride.carries (hs : Stride w mint E limit s es s') (hm : mint.Fresh limit.drawn)
    (hj : j.Edits id) (h : s.Edited w E d id t) :
    s.Carries mint es t (.holding (d.Offers id)) j (s.editing E t limit d id)
      (s'.editing E t limit d id) := by
  have hspares : (∀ q r, .served t q r ∈ es → q.Spares id) → s.store.Spares id s'.store := by
    intro hserved
    refine hs.spares_store hm h.spared ?_
    rintro u q r ⟨⟩ hmem
    exact hserved q r hmem
  refine ⟨fun _ => rfl, fun hU => hs.coherent.offers es t h.rid (hU (.delete id)), ?_, ?_⟩
  · intro hread q hU
    exact hU.trans (hspares fun q r hmem => StoreRequest.spares_of_not_isWrite (hread q r hmem) id)
  · intro q hq
    obtain ⟨u, rfl, rfl⟩ := hq.save hj
    have hkept : (∀ q r, .served t q r ∉ es) → s.store.Spares u.id s'.store :=
      fun hnone => hspares fun q r hmem => absurd hmem (hnone q r)
    refine hs.furthers h.reported ?_ ?_ ?_ ?_
    · exact fun hnone hU => hU.trans (hkept hnone)
    · rintro hnone r ⟨htakes, hmem⟩
      exact ⟨htakes.trans (hkept hnone) hs.grows, hmem⟩
    · intro hmem hU
      obtain ⟨st, -, -, -, hstore⟩ := hs.step.of_served hmem
      have hfresh := hm.mono hs.limit.drawn
      rw [hstore] at hfresh ⊢
      exact ⟨hU.takes_serve hs.coherent.sound hfresh, fun _ _ => hs.seen hmem⟩
    · intro q e hmem hU
      have hkept := hkept fun q r => by simp [hs.step.of_refused hmem]
      exact ⟨(hU.trans hkept).takes (by simp), by simp⟩

/-- An edit that returns has made of the user what its reply says: either the user was not found,
or the reply is that of the store to a save. -/
theorem Stride.edits (hs : Stride w mint E limit s es s') (hw : w.isNone = false)
    (hj : j.Edits id) (h : s.Edited w E d id t)
    (hperforms : ∀ p, s.tasks t = some p →
      p.Performs w (.holding (d.Offers id)) (s.editing E t limit d id) j)
    (hret : .returned t a ∈ es) :
    d.Takes id s'.store a ∧ ∀ v, a = .ok (.user v) →
      (∃ q, j.Makes (.holding (d.Offers id)) q ∧ .served t q a ∈ E) ∧
        (v.id = id → Dropped E t limit s' id (.user v)) := by
  obtain ⟨st, r, ht, hturns, -, hturn⟩ := hs.step.of_returned hret
  have hsame : s'.store = s.store := by rw [hturn, store_turn]
  rw [hsame]
  cases hperforms _ ht with
  | finding hfinds hU =>
      have hresults := hs.coherent.orderly.tidy.results ht hturns
      obtain ⟨-, hne⟩ := hresults.of_finds hfinds.1 (hfinds.2 _ rfl)
      exact ⟨(hU (.delete id)).takes hne, fun v hv => absurd hv (hne v)⟩
  | @writing _ q _ hq hwrites =>
      have hall : ∀ p, s.tasks t = some p → p.Writes (s.editing E t limit d id q) :=
        fun _ hp => Option.some.inj (ht.symm.trans hp) ▸ hwrites
      obtain ⟨⟨htakes, hserved⟩, hdropped⟩ := hs.wrote hw h.reported hall hret
      refine ⟨htakes, ?_⟩
      rintro v rfl
      refine ⟨⟨q, hq, hserved v rfl⟩, fun hv => ?_⟩
      obtain ⟨u, rfl, -⟩ := hq.save hj
      have hconcerns : (StoreRequest.save u).Concerns id (.user v) := ⟨v, rfl, hv⟩
      obtain ⟨id', hid', hdropped⟩ := hdropped _ id rfl hconcerns
      exact hconcerns.unique hid' ▸ hdropped

/-- What a call to edit a user has come to when it returns. -/
structure Call.Amounts (c : Call w mint s es s' t j a) (id : Uuid) : Prop where
  settled : c.next.SettledOn w id
  takes : c.first.store.Takes id c.next.store a
  saved : ∀ u, a = .ok (.user u) → ∃ q, j.Makes (.holding (c.first.store.Offers id)) q ∧
    .served t q a ∈ es

theorem Run.content_of_served (h : Run w mint s es s')
    (hmem : .served t (.save v) (.ok (.user u)) ∈ es) : u.content = v.content := by
  obtain ⟨es₁, es₂, he⟩ := List.append_of_mem hmem
  obtain ⟨l, r, es₃, es₄, s₁, s₂, -, -, -, hs, -⟩ := h.split he
  obtain ⟨st, -, -, hr, -⟩ := hs.of_served (t := t) (q := .save v) (r := .ok (.user u)) (by simp)
  cases Directory.eq_of_serve_save hr.symm
  exact User.content_stage mint _ v

theorem Call.Amounts.view {c : Call w mint s es s' t j a} (hc : c.Amounts id)
    (h : Course w mint s es s') (hj : j.Edits id)
    (ha : a = .ok (.user u)) (hv : c.first.store.view id = some v) :
    c.next.store.view id = some u ∧
      ∀ k ∈ contentColumns, u.column k = (j.written? k).getD (v.column k) := by
  subst ha
  obtain ⟨q, hq, hmem⟩ := hc.saved u rfl
  obtain ⟨x, rfl, hwritten⟩ := hq.edit hj hv
  refine ⟨hc.takes.view hv, fun k hk => ?_⟩
  rw [User.column_of_content (h.run.content_of_served hmem) hk, hwritten k hk]

variable (c : Call w mint s es s' t j a)

theorem Call.edited_begun (h : Course w mint s es s') (hs : c.first.SettledOn w id) :
    (c.first.spawn c.stage).Edited w E c.first.store id t where
  spared := by
    intro u p hp hu
    exact hs.spared u p (c.tasks_of_ne hp hu) (by simp)
  rid := (c.begins h).rid_stale_on c.before.coherent.sound (.refl _) hs.rid
  grows := .refl _
  reported := c.reported

theorem Call.amounts (h : Course w mint s es s') (hw : w.isNone = false) (hj : j.Edits id)
    (hturn : EditedInTurn id es) (hs : c.first.SettledOn w id) : c.Amounts id := by
  generalize hE : c.during ++ c.returning = E
  have hduring : c.during ⊆ E := hE ▸ List.subset_append_left _ _
  have hreturning : c.returning ⊆ E := hE ▸ List.subset_append_right _ _
  have hes : E ⊆ es := hE ▸ c.span_subset
  have hspare : ∀ u j', .began u j' ∈ E → j'.Spares id := fun u j' hmem =>
    hturn.spares (hes hmem) (c.not_began h hturn.turns hj u j' (hE ▸ hmem))
  have hd := c.before.coherent.sound
  have hstride := c.stride h hreturning
  obtain ⟨hlast, hperforms⟩ := c.performed h hduring (fun x => x.Edited w E c.first.store id t)
    (y := editing E t s'.store c.first.store id) hj.isWrite (fun _ _ => rfl)
    (c.edited_begun h hs) (fun _ => .refl id _)
    fun hx hI => ⟨hx.edited hd hspare hI, hx.carries h.fresh hj hI⟩
  have hnext := hstride.edited hd hspare hlast
  obtain ⟨htakes, hsaved⟩ := hstride.edits hw hj hlast hperforms c.returned
  refine ⟨⟨?_, ?_⟩, htakes, ?_⟩
  · intro u p hp _
    refine hnext.spared u p hp ?_
    rintro ⟨⟩
    rw [c.step.tasks_of_returned hstride.coherent.orderly.tidy c.returned] at hp
    cases hp
  · by_cases ha : ∃ v, a = .ok (.user v) ∧ v.id = id
    · obtain ⟨v, hv, hid⟩ := ha
      rcases (hsaved v hv).2 hid with ⟨e, he⟩ | ⟨-, hcleared⟩
      · exact absurd (hes he) (hturn.removed t e)
      · refine hnext.rid.or hcleared fun u hu => ?_
        rcases htakes.stale u hu.1 hu.2 with hstale | ⟨v', hv', -, hsup⟩
        · exact Or.inl ⟨hu.1, hstale⟩
        · rw [hv] at hv'
          cases hv'
          exact Or.inr (hsup.mono c.after.extends_store)
    · refine hnext.rid.of_imp fun u hu => ⟨hu.1, ?_⟩
      rcases htakes.stale u hu.1 hu.2 with hstale | ⟨v, hv, hid, -⟩
      · exact hstale
      · exact absurd ⟨v, hv, hid⟩ ha
  · intro u hu
    obtain ⟨q, hq, hmem⟩ := (hsaved u hu).1
    exact ⟨q, hq, hes hmem⟩

theorem Call.edits_past (h : Course w mint s es s') (hone : OneByOne (Job.Edits id) es)
    (hj : j.Edits id) (E : List Event) :
    c.past.filterMap (Event.edit? id E) = c.earlier.filterMap (Event.edit? id E) ++
      (if succeeds E t = true then [j] else []) := by
  have hspan : (c.during ++ c.returning).filterMap (Event.edit? id E) = [] :=
    Event.edit?_eq_none (c.not_began h hone hj)
  rw [Call.past, List.filterMap_append, List.filterMap_cons, hspan, Event.edit?]
  by_cases ht : succeeds E t = true
  · simp [hj, ht]
  · simp [ht]

/-- When all edits of a user have returned that were made one after the other, the user is what
they have made of it. -/
theorem Course.folds (h : Course w mint s es s') (hw : w.isNone = false)
    (hturn : EditedInTurn id es) (hall : Returned (Job.Edits id) es) (hs : s.SettledOn w id) :
    s'.SettledOn w id ∧ ∀ v, s.store.view id = some v →
      ∃ u, s'.store.view id = some u ∧
        ∀ k ∈ contentColumns, u.column k = columnAfter k (edits id es) (v.column k) := by
  refine h.by_calls (M := fun part x => x.SettledOn w id ∧ ∀ v, s.store.view id = some v →
    ∃ u, x.store.view id = some u ∧ ∀ k ∈ contentColumns,
      u.column k = columnAfter k (part.filterMap (Event.edit? id es)) (v.column k)) hturn.turns hall
    ⟨hs, fun v hv => ⟨v, hv, fun _ _ => rfl⟩⟩ ?_ ?_
  · rintro es₁ x es₂ y hearly hbeside hnone ⟨hx, hview⟩
    have hspare : ∀ t j, .began t j ∈ es₂ → j.Spares id := fun t j hmem =>
      hturn.spares (hearly.subset (List.mem_append_right _ hmem)) (hnone t j hmem)
    obtain ⟨hspares, hy⟩ := hbeside.settledOn hspare hx
    refine ⟨hy, fun v hv => ?_⟩
    obtain ⟨u, hu, hcolumns⟩ := hview v hv
    rw [List.filterMap_append, Event.edit?_eq_none hnone, List.append_nil]
    exact ⟨u, hspares.view hu, hcolumns⟩
  · rintro es₁ y t j a c hearly hcourse hj ⟨hfirst, hview⟩
    have hturn₁ := hturn.of_prefix hearly
    have hamounts := c.amounts hcourse hw hj hturn₁ hfirst
    refine ⟨hamounts.settled, fun v hv => ?_⟩
    obtain ⟨u, hu, hcolumns⟩ := hview v hv
    have hreturned : .returned t a ∈ es := hearly.subset (c.returning_subset c.returned)
    rw [c.edits_past hcourse hturn₁.turns hj es]
    by_cases ht : succeeds es t = true
    · obtain ⟨x, hmem⟩ := succeeds_iff.mp ht
      have ha := h.run.returned_unique h.start.orderly hreturned hmem
      obtain ⟨hx, hsaved⟩ := hamounts.view hcourse hj ha hu
      refine ⟨x, hx, fun k hk => ?_⟩
      rw [hsaved k hk, hcolumns k hk, if_pos ht, columnAfter, columnAfter, List.foldl_append]
      rfl
    · rw [if_neg ht, List.append_nil]
      refine ⟨u, hamounts.takes.view_of_ne ?_ hu, hcolumns⟩
      rintro x rfl
      exact ht (succeeds_iff.mpr ⟨x, hreturned⟩)

/-- What becomes of a user whose updates and patches are made one after the other. -/
structure LosesNoEdit (w : Wiring) (mint : Mint) (id : Uuid) (s : System) (es : List Event)
    (s' : System) : Prop where
  /-- A patch that returns the user has saved what it lists, and else what the last version from
  before it began has. -/
  patched : ∀ {es₁ t patch es₂ x v u}, es = es₁ ++ .began t (.amend id patch) :: es₂ →
    Run w mint s es₁ x → Run w mint x (.began t (.amend id patch) :: es₂) s' →
    (x.store.history id).getLast? = some v → .returned t (.ok (.user u)) ∈ es →
      ∃ saved, .served t (.save saved) (.ok (.user u)) ∈ es ∧ saved.id = id ∧
        ∀ c ∈ contentColumns, saved.column c = (patch.value? c).getD (v.column c) ∧
          u.column c = saved.column c
  /-- From one time to another when no edit of the user is under way, each column of the user comes
  to hold what the edits write to it that return the user. -/
  folded : ∀ {es₁ es₂ x v}, es = es₁ ++ es₂ → Run w mint s es₁ x → Run w mint x es₂ s' →
    Returned (Job.Edits id) es₁ → Returned (Job.Edits id) es → x.store.view id = some v →
      ∃ u, s'.store.view id = some u ∧
        ∀ c ∈ contentColumns, u.column c = columnAfter c (edits id es₂) (v.column c)

theorem Run.editedInTurn_after (h₁ : Run w mint s es₁ x) (h₂ : Run w mint x es₂ s')
    (hs : Orderly w s) (h : EditedInTurn id (es₁ ++ es₂)) : EditedInTurn id es₂ where
  turns := h₁.series_after h₂ hs h.turns
  kept t hmem := h.kept t (List.mem_append_right _ hmem)
  removed t e he := h.removed t e (List.mem_append_right _ he)

theorem Course.patches (h : Course w mint x (.began t (.amend id patch) :: es₂) s')
    (hw : w.isNone = false) (hturn : EditedInTurn id (.began t (.amend id patch) :: es₂))
    (hs : x.SettledOn w id) (hlast : (x.store.history id).getLast? = some v)
    (hr : .returned t (.ok (.user u)) ∈ Event.began t (.amend id patch) :: es₂) :
    .served t (.save (v.apply patch)) (.ok (.user u)) ∈ Event.began t (.amend id patch) :: es₂ := by
  obtain ⟨c, hearlier⟩ := h.call_of_returned (List.nil_append _).symm hr
  obtain ⟨hspares, hfirst⟩ := c.before.settledOn (by simp [hearlier]) hs
  obtain ⟨q, hq, hmem⟩ := (c.amounts h hw rfl hturn hfirst).saved u rfl
  obtain ⟨i, hi, hversions⟩ :
      ∃ i, x.store.identity? id = some i ∧ i.versions.getLast? = some v := by
    rcases hi : x.store.identity? id with _ | i
    · simp [Directory.history, hi] at hlast
    · exact ⟨i, rfl, by simpa [Directory.history, hi] using hlast⟩
  obtain ⟨v', hv', rfl⟩ := hq.view (hspares.identity i hi)
  obtain ⟨i', hi', -, hversions'⟩ := Directory.view_eq_some_iff.mp hv'
  rw [hspares.identity i hi] at hi'
  cases hi'
  rw [hversions] at hversions'
  cases hversions'
  exact hmem

/-- Patches and updates of a user that are made one after the other lose nothing, however many
reads, write-backs and writes to other users run beside them, and whatever fails but removals of
the entry of the user. -/
theorem loses_no_edit {cfg : UserCacheConfig} {m : Nat} (hd : d.Reachable mint)
    (h : Run (some cfg) mint { store := d, cache := { maxLifetime := m } } es s)
    (hm : mint.Fresh s.store.drawn) (hquiet : ∀ key, .meddled key ∉ es)
    (hturn : EditedInTurn id es) :
    LosesNoEdit (some cfg) mint id { store := d, cache := { maxLifetime := m } } es s := by
  have hcourse := Course.of_run hd h hm hquiet
  have ho := hcourse.start.orderly
  have hsettled : ∀ {es₁ x}, es₁ <+: es →
      Course (some cfg) mint { store := d, cache := { maxLifetime := m } } es₁ x →
      Returned (Job.Edits id) es₁ → x.SettledOn (some cfg) id := fun hearly h₁ hall =>
    (h₁.folds rfl (hturn.of_prefix hearly) hall (settledOn_start _ id d m)).1
  constructor
  · rintro es₁ t patch es₂ x v u rfl h₁ h₂ hlast hr
    obtain ⟨hbefore, hrest⟩ := hcourse.of_append h₁ h₂
    have hx := hsettled (List.prefix_append _ _) hbefore (hturn.turns _ _ _ _ rfl rfl)
    have hr := h₁.returned_after h₂ ho (List.mem_cons_self ..) hr
    have hsaved := List.mem_append_right es₁
      (hrest.patches rfl (h₁.editedInTurn_after h₂ ho hturn) hx hlast hr)
    have hid := hbefore.coherent.sound.id_of_mem_history (List.mem_of_getLast? hlast)
    exact ⟨_, hsaved, hid, fun c hc => ⟨User.column_apply hc v patch,
      User.column_of_content (h.content_of_served hsaved) hc⟩⟩
  · rintro es₁ es₂ x v rfl h₁ h₂ hall₁ hall hv
    obtain ⟨hbefore, hrest⟩ := hcourse.of_append h₁ h₂
    have hx := hsettled (List.prefix_append _ _) hbefore hall₁
    exact (hrest.folds rfl (h₁.editedInTurn_after h₂ ho hturn) (h₁.all_returned_after h₂ ho hall)
      hx).2 v hv

/-- A read leaves a write-back behind that is carried out in the midst of an update, and the patch
that follows keeps what the update has changed. -/
theorem loses_no_edit_of_late_write_back :
    let mint : Mint := fun n => .ofNat (n + 1)
    let u : User := { id := mint 1, firstName := "Ada" }
    let patch : UserPatch := { lastName := .present "Byron" }
    let v : User := { u with lastName := "Byron", versionId := mint 3, isLatestVersion := true }
    let start : System := { store := {}, cache := { maxLifetime := 1000 } }
    ∃ es s, Run (some {}) mint start es s ∧ EditedInTurn u.id es ∧
      [.began 3 (.request (.save u)), .returned 2 (.ok .done),
        .returned 3 (.ok (.user { u with versionId := mint 2, isLatestVersion := true })),
        .began 4 (.amend u.id patch), .returned 4 (.ok (.user v))].Sublist es ∧
      LosesNoEdit (some {}) mint u.id start es s := by
  intro mint u patch v start
  obtain ⟨es, s, h, hfaults, hend⟩ := Run.of_any (some {}) mint start
    ([.start (.request (.save {}))] ++ List.replicate 6 (.advance 0) ++
      [.start (.request (.get u.id))] ++ List.replicate 4 (.advance 1) ++
      [.start (.request (.save u))] ++ List.replicate 4 (.advance 3) ++
      List.replicate 2 (.advance 2) ++ [.advance 3] ++ List.replicate 2 (.advance 2) ++
      List.replicate 3 (.advance 3) ++
      [.start (.amend u.id patch)] ++ List.replicate 12 (.advance 4))
    (fun x => x.2.store.drawn = 4 ∧ OneByOne (Job.Edits u.id) x.1 ∧
      x.1.any Event.isDeletion = false ∧
      List.isSublist [.began 3 (.request (.save u)), .returned 2 (.ok .done),
        .returned 3 (.ok (.user { u with versionId := mint 2, isLatestVersion := true })),
        .began 4 (.amend u.id patch), .returned 4 (.ok (.user v))] x.1)
    (by decide +kernel)
  obtain ⟨hdrawn, hone, hkept, hl⟩ := of_decide_eq_true hend
  have hm : mint.Fresh s.store.drawn := by
    rw [hdrawn]
    decide +kernel
  have hturn : EditedInTurn u.id es :=
    { turns := hone
      kept := by
        intro t hmem
        exact List.any_eq_false.mp hkept _ hmem rfl
      removed := fun t e he => hfaults _ he trivial }
  exact ⟨es, s, h, hturn, List.isSublist_iff_sublist.mp hl,
    loses_no_edit .empty h hm (fun key hk => hfaults _ hk trivial) hturn⟩

end System

end UserDirectory
