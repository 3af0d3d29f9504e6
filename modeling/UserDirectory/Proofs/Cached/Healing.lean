import UserDirectory.Proofs.Cached.Amendment
import UserDirectory.Proofs.Cached.Mending
import UserDirectory.Proofs.Cached.Turns

namespace UserDirectory.System

variable {w : Wiring} {mint : Mint} {s s' s₁ : System} {es : List Event} {d : Directory}
  {t : TaskId} {email : String} {o : Sources} {p : Process} {st : Stage} {n : Nat}

theorem Run.looks_on (h : Run w mint s es s') (hw : w.isNone = false) (hd : d.Sound mint)
    (hlone : Undisturbed es) (hs : s.Looking w d .lookups t email) :
    s'.Looking w d .lookups t email :=
  h.looking hw hd hlone hs fun x es' _ _ => supplies_lookups mint x es' t

namespace Looking

theorem holder_eq_none (h : s.Looking w d o t email) (hp : s.tasks t = some p)
    (hheld : p.held? = none) {id : Uuid} (ha : p.stage.awaited? = some id) :
    (s.fences.fence id).holder = none := by
  have hfenced : p.stage.fenced? ≠ none := by
    rw [Stage.fenced?_of_awaited? ha]
    exact Option.some_ne_none _
  have hinline := (h.waits p hp).1 hfenced
  rcases hu : (s.fences.fence id).holder with _ | u
  · rfl
  · have hholds : s.held? u = some id := (h.orderly.owned.holder id u).mp hu
    by_cases hut : u = t
    · rw [hut, held?_of_tasks hp, hheld] at hholds
      cases hholds
    · rw [System.held?, h.inline hinline u hut] at hholds
      cases hholds

theorem replied (mint : Mint) (h : s.Looking w d o t email) (hp : s.tasks t = some p) :
    ∃ es s' r, FaultlessRun w mint s es s' ∧ Undisturbed es ∧
      s'.tasks t = some ⟨p.stage, .replied r⟩ := by
  obtain ⟨st, sd⟩ := p
  cases sd with
  | replied r => exact ⟨[], s, r, .refl s, undisturbed_iff.mpr (by simp), hp⟩
  | queued =>
      obtain ⟨id, ha⟩ := Option.ne_none_iff_exists'.mp ((h.waits _ hp).2 rfl)
      have hwaits : t ∈ (s.fences.fence id).waiting :=
        (h.orderly.owned.waiting id t).mpr ((awaited?_of_tasks hp).trans ha)
      have hfree := h.holder_eq_none hp (Stage.held?_eq_none ha) ha
      rw [h.orderly.owned.idle id hfree] at hwaits
      cases hwaits
  | ready =>
      rcases hq : st.request w with q | q | id
      · exact ⟨_, _, _, .single (.exchange hp hq) (List.forall_mem_singleton.mpr rfl),
          undisturbed_iff.mpr (List.forall_mem_singleton.mpr rfl), if_pos rfl⟩
      · exact ⟨_, _, _, .single (.serve hp hq) (List.forall_mem_singleton.mpr trivial),
          undisturbed_iff.mpr (List.forall_mem_singleton.mpr rfl), if_pos rfl⟩
      · have ha := Stage.request_eq_fence_iff.mp hq
        have hfree := h.holder_eq_none hp (Stage.held?_eq_none ha) ha
        have hgranted : (s.fences.acquire id t).1 = true := by
          simp only [Fences.acquire, hfree]
        have hask : Step w mint s _ _ := .ask hp hq
        rw [hgranted, if_pos rfl] at hask
        exact ⟨_, _, _, .single hask (List.forall_mem_nil _),
          undisturbed_iff.mpr (List.forall_mem_nil _), if_pos rfl⟩

theorem returns (h : s.Looking w d .lookups t email) (hw : w.isNone = false) (hd : d.Sound mint)
    (hp : s.tasks t = some p) :
    ∃ es s' a, FaultlessRun w mint s es s' ∧ Undisturbed es ∧ .returned t a ∈ es := by
  -- By induction on the rank of the stage, which every turn lowers.
  induction hrank : p.stage.rank using Nat.strong_induction_on generalizing s p with
  | _ k ih =>
      obtain ⟨es, x, r, hrun, hlone, hx⟩ := h.replied mint hp
      have hbefore := hrun.run.looks_on hw hd hlone h
      have hturn := hrun.step (.turn hx) succeeds_turned
      have hturned : Undisturbed (es ++
          .turned t p.stage r :: (p.stage.turn w x.fences r).next.events t) :=
        hlone.append undisturbed_turned
      rcases hnext : (p.stage.turn w x.fences r).next with st | a
      · have hafter := hturn.run.looks_on hw hd hturned h
        have ho := hbefore.orderly.tidy
        have hp' : (x.turn w t p.stage r).tasks t = some ⟨st, .ready⟩ := by
          rw [ho.tasks_turn hx, hnext]
          rfl
        obtain ⟨es', s', a, hrest, hlone', ha⟩ :=
          ih st.rank (hrank ▸ (ho.successor hx hnext).rank_lt) hafter hp' rfl
        exact ⟨_, s', a, hturn.trans hrest, hturned.append hlone', List.mem_append_right _ ha⟩
      · refine ⟨_, _, a, hturn, hturned, List.mem_append_right _ ?_⟩
        rw [hnext]
        exact List.mem_cons_of_mem _ (List.mem_singleton_self _)

end Looking

theorem Run.returned_or_goes_on (h : Run w mint s es s') (ho : Orderly w s)
    (ht : s.tasks t ≠ none) (hcancelled : .cancelled t ∉ es) :
    (∃ a, .returned t a ∈ es) ∨ s'.tasks t ≠ none := by
  induction h with
  | refl => exact Or.inr ht
  | @step x x' es es' h hx ih =>
      rcases ih fun hmem => hcancelled (List.mem_append_left _ hmem) with ⟨a, ha⟩ | halive
      · exact Or.inl ⟨a, List.mem_append_left _ ha⟩
      · by_cases hreturned : ∃ a, .returned t a ∈ es'
        · obtain ⟨a, ha⟩ := hreturned
          exact Or.inl ⟨a, List.mem_append_right _ ha⟩
        · refine Or.inr (hx.tasks_ne_none (h.orderly_of ho).tidy halive ?_ ?_)
          · exact fun hmem => hcancelled (List.mem_append_right _ hmem)
          · exact fun a ha => hreturned ⟨a, ha⟩

theorem Step.of_unseen (hs : Step w mint s [] s') :
    ∃ tasks fences, s' = { s with tasks := tasks, fences := fences } := by
  cases hs with
  | ask ht hq => exact ⟨_, _, rfl⟩

theorem Step.atRest (hs : Step w mint s [] s') (hd : s.store.Sound mint) (h : s.AtRest w) :
    s'.AtRest w where
  orderly := hs.orderly h.orderly
  alone := hs.alone h.orderly (by simp) h.alone
  inline hinline := by
    cases hs with
    | ask ht hq =>
        rw [h.inline hinline] at ht
        cases ht
  fenced := by
    have hfenced := hs.fenced h.orderly hd (fun _ hu => hu) h.fenced
    obtain ⟨tasks, fences, rfl⟩ := hs.of_unseen
    exact hfenced

theorem Run.of_unseen (h : Run w mint s es s') (hes : es = []) (hd : s.store.Sound mint)
    (hs : s.AtRest w) :
    s'.AtRest w ∧ ∃ tasks fences, s' = { s with tasks := tasks, fences := fences } := by
  induction h with
  | refl => exact ⟨hs, _, _, rfl⟩
  | step h hx ih =>
      obtain ⟨rfl, rfl⟩ := List.append_eq_nil_iff.mp hes
      obtain ⟨hrest, tasks, fences, rfl⟩ := ih rfl
      obtain ⟨tasks', fences', rfl⟩ := hx.of_unseen
      exact ⟨hx.atRest hd hrest, tasks', fences', rfl⟩

theorem Orderly.atRest (h : Orderly w s) (hidle : ∀ t, s.tasks t = none) : s.AtRest w where
  orderly := h
  alone t p hp := by
    rw [hidle] at hp
    cases hp
  inline _ := hidle
  fenced t p hp := by
    rw [hidle] at hp
    cases hp

theorem AtRest.begins (h : s.AtRest w) (hw : w.isNone = false) (hd : s.store.Sound mint)
    (htrue : s.Truthful s.store) (hunseen : Run w mint s [] s₁)
    (hst : (Job.request (.getByEmail email)).start w s₁.fences = .stage st) (o : Sources) :
    (s₁.spawn st).Looking w s.store o s₁.nextTask email := by
  obtain ⟨hrest, tasks, fences, rfl⟩ := hunseen.of_unseen rfl hd h
  exact hrest.looking hw hd htrue hst o

theorem Run.looks_up (h : Run w mint s (.began t (.request (.getByEmail email)) :: es) s')
    (hw : w.isNone = false) (hd : s.store.Sound mint) (hrest : s.AtRest w)
    (htrue : s.Truthful s.store) :
    ∃ x, Run w mint x es s' ∧ x.tasks t ≠ none ∧ ∀ o, x.Looking w s.store o t email := by
  obtain ⟨s₁, st, hunseen, hst, rfl, hrun⟩ := h.split_began (List.nil_append _).symm
  refine ⟨_, hrun, ?_, hrest.begins hw hd htrue hunseen hst⟩
  rw [tasks_spawn, if_pos rfl]
  exact Option.some_ne_none _

theorem FaultlessRun.mends
    (h : FaultlessRun w mint s (.began t (.request (.getByEmail email)) :: es) s')
    (hw : w.isNone = false) (hd : s.store.Sound mint) (hrest : s.AtRest w)
    (htrue : s.Truthful s.store) (hinline : w.isInline = true) (hlasting : s.Lasting w n) :
    ∃ x, FaultlessRun w mint x es s' ∧ x.Mending w mint s.store es t email n := by
  obtain ⟨s₁, st, hunseen, hst, rfl, hrun⟩ := h.of_began
  have hlooking := hrest.begins hw hd htrue hunseen.run hst (present mint s.store es s₁.nextTask)
  obtain ⟨-, tasks, fences, rfl⟩ := hunseen.run.of_unseen rfl hd hrest
  refine ⟨_, hrun, hlooking, hinline, ⟨hlasting.entries, hlasting.fresh⟩, ?_⟩
  intro p hp
  rw [tasks_spawn, if_pos rfl] at hp
  cases hp
  cases start_starts hst with
  | readIndex => exact ⟨⟨rfl, rfl⟩, by simp⟩
  | fetchByEmail hnone =>
      rw [hw] at hnone
      cases hnone

/-- What becomes of a lookup by email that begins in `s` with no other call beside it. -/
structure Heals (w : Wiring) (mint : Mint) (s : System) (email : String) : Prop where
  /-- Whatever has happened, it returns if nothing fails from then on. -/
  returns : ∀ {t es s'}, Run w mint s (.began t (.request (.getByEmail email)) :: es) s' →
    Undisturbed es → .cancelled t ∉ es →
      ∃ es' s'' a, FaultlessRun w mint s' es' s'' ∧ Undisturbed es' ∧ .returned t a ∈ es ++ es'
  finds : ∀ {t es s' a}, Run w mint s (.began t (.request (.getByEmail email)) :: es) s' →
    Undisturbed es → .returned t a ∈ es → s.store.Finds email a
  /-- Nothing changes in the store, and what the cache has of users stays true. -/
  truthful : ∀ {t es s'}, Run w mint s (.began t (.request (.getByEmail email)) :: es) s' →
    Undisturbed es → s'.store.contents = s.store.contents ∧ s'.Truthful s'.store
  mends : ∀ {t es s' a},
    FaultlessRun w mint s (.began t (.request (.getByEmail email)) :: es) s' →
      Undisturbed es → w.isInline = true → s.Lasting w s'.now → .returned t a ∈ es →
        Mended email (s'.cache.named s'.now email) a

/-- The index of emails heals from any content by a lookup. -/
theorem email_index_heals {cfg : UserCacheConfig} (hd : s.store.Reachable mint)
    (hm : mint.Fresh s.store.drawn) (hrest : s.AtRest (some cfg)) (htrue : s.Truthful s.store)
    (email : String) : Heals (some cfg) mint s email := by
  have hsound : s.store.Sound mint := hd.sound hm
  constructor
  · intro t es s' h hlone hcancelled
    obtain ⟨x, hrun, halive, hx⟩ := h.looks_up rfl hsound hrest htrue
    have hlooking := hrun.looks_on rfl hsound hlone (hx .lookups)
    rcases hrun.returned_or_goes_on (hx .lookups).orderly halive hcancelled with ⟨a, ha⟩ | hon
    · exact ⟨[], s', a, .refl s', undisturbed_iff.mpr (by simp), List.mem_append_left _ ha⟩
    · obtain ⟨p, hp⟩ := Option.ne_none_iff_exists'.mp hon
      obtain ⟨es', s'', a, hrest, hlone', ha⟩ := hlooking.returns rfl hsound hp
      exact ⟨es', s'', a, hrest, hlone', List.mem_append_right _ ha⟩
  · intro t es s' a h hlone hr
    obtain ⟨x, hrun, -, hx⟩ := h.looks_up rfl hsound hrest htrue
    exact hrun.finds rfl hsound hlone (hx _) hr
  · intro t es s' h hlone
    obtain ⟨x, hrun, -, hx⟩ := h.looks_up rfl hsound hrest htrue
    have hlooking := hrun.looks_on rfl hsound hlone (hx .lookups)
    refine ⟨hlooking.contents, ?_⟩
    intro id bs u hget hu
    rw [Directory.view_congr hlooking.contents]
    exact hlooking.truthful id bs u hget hu
  · intro t es s' a h hlone hinline hlasting hr
    obtain ⟨x, hrun, hx⟩ := h.mends rfl hsound hrest htrue hinline hlasting
    have hended := hrun.mended rfl hsound hlone (List.Subset.refl _) hx (Nat.le_refl _)
    exact (hended.2 a hr).2

/-- The index names another user for the email than the one who has it, and the entry of that user
cannot be read. -/
theorem email_index_heals_of_misleading_index :
    let mint : Mint := fun n => .ofNat (n + 1)
    let d := Directory.serveAll mint {} [.save { email := "a" }, .save { email := "b" }]
    let u : User :=
      { id := mint 1, versionId := mint 0, isLatestVersion := true, email := "a" }
    let c : MemoryCache := { maxLifetime := 1000 }
    let s : System :=
      { store := d
        cache := (c.set 0 (CacheKey.user (mint 3)) [0] 1000).set 0 (CacheKey.email "a")
          (Json.Codec.uuid.toBytes (mint 3)) 1000 }
    s.AtRest (some .inline) ∧ s.Truthful d ∧ s.cache.named 0 "a" = some (mint 3) ∧
      d.Finds "a" (.ok (.user u)) ∧
      (∃ es s', FaultlessRun (some .inline) mint s
          (.began 0 (.request (.getByEmail "a")) :: es) s' ∧ Undisturbed es ∧
        .returned 0 (.ok (.user u)) ∈ es ∧ s'.cache.named s'.now "a" = some u.id) ∧
      Heals (some .inline) mint s "a" := by
  intro mint d u c s
  have hd : d.Reachable mint := .serve (.serve .empty _) _
  have hm : mint.Fresh d.drawn := by decide +kernel
  have hrest : s.AtRest (some .inline) := (orderly_start d s.cache).atRest fun _ => rfl
  have htrue : s.Truthful d := by
    intro id bs v hget hv
    have hbad : (User.codec.ofEntry [0]).toOption = none := by decide +kernel
    rw [MemoryCache.get?_set, if_neg (CacheKey.email_ne_user _ _).symm,
      MemoryCache.get?_set] at hget
    split at hget
    · cases hget
      rw [hv] at hbad
      cases hbad
    · cases hget
  have hheals := email_index_heals hd hm hrest htrue "a"
  obtain ⟨es, s', h, hend⟩ := FaultlessRun.of_any (some .inline) mint
    (s.spawn (.readIndex "a" 0)) (List.replicate 22 (.advance 0))
    (fun x => Undisturbed x.1 ∧ .returned 0 (.ok (.user u)) ∈ x.1 ∧ x.2.now = 0)
    (by decide +kernel)
  obtain ⟨hlone, hr, hnow⟩ := of_decide_eq_true hend
  have hbegin : Step (some .inline) mint s [.began 0 (.request (.getByEmail "a"))]
      (s.spawn (.readIndex "a" 0)) := .begin rfl
  have hrun := (FaultlessRun.single hbegin (List.forall_mem_singleton.mpr trivial)).trans h
  have hlasting : s.Lasting (some .inline) s'.now := by
    rw [hnow]
    exact ⟨fun _ => rfl, by decide⟩
  refine ⟨hrest, htrue, by decide +kernel, hheals.finds hrun.run hlone hr,
    ⟨es, s', hrun, hlone, hr, ?_⟩, hheals⟩
  exact (hheals.mends hrun hlone rfl hlasting hr).found u rfl (by decide)

end UserDirectory.System
