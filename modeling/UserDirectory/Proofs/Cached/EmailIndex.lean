import UserDirectory.Proofs.Cached.Replacement
import UserDirectory.Proofs.Directory.Email

namespace UserDirectory

open UserDirectory.Json

variable {w : Wiring} {f : Fences} {st st' : Stage} {r : Reply} {e : String}

theorem Stage.Successor.ne_readIndex (h : st.Successor w f r st') (email : String) (n : Nat) :
    st' ≠ .readIndex email n := by
  rintro rfl
  cases h with
  | hit hu hs => cases hs
  | fetched hs => cases hs
  | skipped hn hs => cases hs
  | written hs => cases hs
  | indexWritten hs => cases hs

namespace System

variable {mint : Mint} {s s' : System} {es es₁ es₂ E : List Event} {t : TaskId} {d : Directory}
  {a : StoreReply} {n : Nat} {email : String}

theorem Step.past_readIndex (hs : Step w mint s es s') (ho : Orderly w s)
    (hmem : .turned t (.readIndex email n) r ∈ es) {p : Process} (hp : s'.tasks t = some p)
    (email' : String) (n' : Nat) : p.stage ≠ .readIndex email' n' := by
  obtain ⟨ht, -, rfl⟩ := hs.of_turned hmem
  rcases cases_turn (ho.tidy.woken_ne ht) hp with ⟨-, hu, -⟩ | ⟨-, hnext, -⟩ | ⟨hne, -⟩ | ⟨hne, -⟩
  · exact absurd hu (Nat.ne_of_lt (ho.lt_nextTask ht))
  · exact (ho.tidy.successor ht hnext).ne_readIndex _ _
  · exact absurd rfl hne
  · exact absurd rfl hne

theorem Step.ne_readIndex (hs : Step w mint s es s') (ho : Orderly w s) (ht : t < s.nextTask)
    (h : ∀ p, s.tasks t = some p → ∀ email n, p.stage ≠ .readIndex email n) {p : Process}
    (hp : s'.tasks t = some p) (email : String) (n : Nat) : p.stage ≠ .readIndex email n := by
  rcases (hs.origin ho.tidy hp).stage_cases ho.tidy with
    ⟨sd, hst⟩ | ⟨j, hu, -⟩ | ⟨u, n, hu, -⟩ | ⟨st, r, st', -, -, hst, rfl⟩
  · exact h _ hst email n
  · exact absurd hu (Nat.ne_of_lt ht)
  · exact absurd hu (Nat.ne_of_lt ht)
  · exact hst.ne_readIndex _ _

theorem Run.past_readIndex (h : Run w mint s es s') (hs : Orderly w s)
    (hmem : .turned t (.readIndex email n) r ∈ es) :
    t < s'.nextTask ∧ ∀ p, s'.tasks t = some p → ∀ email n, p.stage ≠ .readIndex email n := by
  induction h with
  | refl => cases hmem
  | @step x x' es es' h hx ih =>
      have ho := h.orderly_of hs
      rcases List.mem_append.mp hmem with hmem | hmem
      · obtain ⟨ht, hpast⟩ := ih hmem
        exact ⟨Nat.lt_of_lt_of_le ht hx.nextTask_le, fun p hp => hx.ne_readIndex ho ht hpast hp⟩
      · obtain ⟨ht, -⟩ := hx.of_turned hmem
        exact ⟨Nat.lt_of_lt_of_le (ho.lt_nextTask ht) hx.nextTask_le,
          fun p hp => hx.past_readIndex ho hmem hp⟩

theorem Run.readIndex_unique (h : Run w mint s es s') (hs : Orderly w s) {email' : String}
    {n' : Nat} {r' : Reply} (hmem : .turned t (.readIndex email n) r ∈ es)
    (hmem' : .turned t (.readIndex email' n') r' ∈ es) : r = r' := by
  induction h with
  | refl => cases hmem
  | @step x x' es es' h hx ih =>
      rcases List.mem_append.mp hmem with hmem | hmem
      · rcases List.mem_append.mp hmem' with hmem' | hmem'
        · exact ih hmem hmem'
        · obtain ⟨ht, -⟩ := hx.of_turned hmem'
          exact absurd rfl ((h.past_readIndex hs hmem).2 _ ht _ _)
      · obtain ⟨ht, -⟩ := hx.of_turned hmem
        rcases List.mem_append.mp hmem' with hmem' | hmem'
        · exact absurd rfl ((h.past_readIndex hs hmem').2 _ ht _ _)
        · obtain ⟨ht', -⟩ := hx.of_turned hmem'
          rw [ht] at ht'
          cases ht'
          rfl

/-- Whether the index, where it has named a user to a task that has the email, has named the first
that has it. -/
def IndexTrue (mint : Mint) (d : Directory) (es : List Event) (t : TaskId) (email : String) :
    Prop :=
  ∀ n c id u, .turned t (.readIndex email n) (.cache c) ∈ es → indexRead c = some id →
    (d.serve mint (.get id)).1 = .ok (.user u) → u.email = email → d.IsFirst email u

theorem IndexTrue.congr {d' : Directory} (h : d'.contents = d.contents)
    (htrue : IndexTrue mint d es t email) : IndexTrue mint d' es t email := by
  intro n c id u hc hread hget he
  rw [(Directory.serve_congr mint h _).1] at hget
  exact (htrue n c id u hc hread hget he).congr h

/-- A lookup by email that is told what the store shows gives what the store gives exactly if the
index is true. -/
theorem answers_eq_iff (hd : d.Sound mint) (hsub : E ⊆ es)
    (hunique : ∀ {n c n' c'}, .turned t (.readIndex email n) (.cache c) ∈ es →
      .turned t (.readIndex email n') (.cache c') ∈ es → indexRead c = indexRead c')
    (h : (present mint d E t).Answers (.getByEmail email) a) :
    a = (d.serve mint (.getByEmail email)).1 ↔ IndexTrue mint d es t email := by
  rcases answers_getByEmail_cases h with ⟨id, u, hi, hget, he, rfl⟩ | ⟨hm, hr⟩
  · obtain ⟨n, c, hc, hread⟩ := hi
    rw [eq_comm, hd.serve_getByEmail_iff]
    constructor
    · intro hfirst n' c' id' u' hc' hread' hget' _
      rw [← hunique (hsub hc) hc', hread] at hread'
      cases hread'
      rw [hget] at hget'
      cases hget'
      exact hfirst
    · exact fun htrue => htrue n c id u (hsub hc) hread hget he
  · refine iff_of_true hr ?_
    intro n c id u hc hread hget he
    -- The task has read the index once, and what it has read there names `u`.
    have hnamed : ∀ {i}, (present mint d E t).index email i → i = some id := by
      rintro i ⟨n', c', hc', hread'⟩
      rw [← hread', ← hunique hc (hsub hc'), hread]
    cases hm with
    | unindexed hi => cases hnamed hi
    | stale hi hg hne =>
        cases hnamed hi
        have hget' := gives_present hg
        rw [hget] at hget'
        cases hget'
        exact absurd he hne
    | lost hi hg =>
        cases hnamed hi
        have hget' := gives_present hg
        rw [hget] at hget'
        cases hget'

/-- When clients make their calls one after the other, a lookup by email through the cache returns
what the store would return exactly if the index is true. -/
theorem getByEmail_eq_iff {cfg : UserCacheConfig} {m : Nat} (hd : d.Reachable mint)
    (h : Run (some cfg) mint { store := d, cache := { maxLifetime := m } } es s)
    (hm : mint.Fresh s.store.drawn) (hserial : Serial es) (hbenign : Benign es)
    (he : es = es₁ ++ .began t (.request (.getByEmail email)) :: es₂) (hr : .returned t a ∈ es) :
    a = ((d.serveAll mint (requests es₁)).serve mint (.getByEmail email)).1 ↔
      IndexTrue mint (d.serveAll mint (requests es₁)) es t email := by
  have hcourse := Course.of_run hd h hm hbenign.quiet
  obtain ⟨c, rfl⟩ := hcourse.call_of_returned he hr
  obtain ⟨hfirst, hcontents⟩ := c.before.lockstep rfl (hserial.of_prefix ⟨_, he.symm⟩)
    (hbenign.of_subset c.earlier_subset) (settled_start d _ fun _ => rfl) rfl (hserial.turns he)
  obtain ⟨-, -, hanswers⟩ := c.read hcourse rfl (List.Subset.refl _) (c.none_began hcourse hserial)
    (hbenign.of_subset c.span_subset).inService id hfirst
  have hunique : ∀ {n b n' b'}, .turned t (.readIndex email n) (.cache b) ∈ es →
      .turned t (.readIndex email n') (.cache b') ∈ es → indexRead b = indexRead b' := by
    intro n b n' b' hb hb'
    cases h.readIndex_unique hcourse.start.orderly hb hb'
    rfl
  have hiff := answers_eq_iff c.before.coherent.sound c.span_subset hunique hanswers
  rw [(Directory.serve_congr mint hcontents _).1] at hiff
  rw [hiff]
  exact ⟨fun htrue => htrue.congr hcontents.symm, fun htrue => htrue.congr hcontents⟩

/-- Two users have an email, and the index names the one of them that was read by its id. -/
theorem getByEmail_eq_iff_of_shared_email :
    let mint : Mint := fun n => .ofNat (n + 1)
    let d := Directory.serveAll mint {} [.save { email := "e" }, .save { email := "e" }]
    let u : User :=
      { id := mint 1, versionId := mint 0, isLatestVersion := true, email := "e" }
    let v : User :=
      { id := mint 3, versionId := mint 2, isLatestVersion := true, email := "e" }
    ∃ es es₁ es₂ s,
      Run (some .inline) mint { store := d, cache := { maxLifetime := 1000 } } es s ∧
      Serial es ∧ Benign es ∧ es = es₁ ++ .began 1 (.request (.getByEmail "e")) :: es₂ ∧
      .returned 1 (.ok (.user v)) ∈ es ∧
      ((d.serveAll mint (requests es₁)).serve mint (.getByEmail "e")).1 = .ok (.user u) ∧
      ¬ IndexTrue mint (d.serveAll mint (requests es₁)) es 1 "e" := by
  intro mint d u v
  obtain ⟨es, s, h, hfaults, hend⟩ := Run.of_any (some .inline) mint
    { store := d, cache := { maxLifetime := 1000 } }
    ([.start (.request (.get v.id))] ++ List.replicate 10 (.advance 0) ++
      [.start (.request (.getByEmail "e"))] ++ List.replicate 4 (.advance 1))
    (fun x => x.2.store.drawn = 4 ∧ Serial x.1 ∧
      x.1 = x.1.take 11 ++ .began 1 (.request (.getByEmail "e")) :: x.1.drop 12 ∧
      .returned 1 (.ok (.user v)) ∈ x.1 ∧
      ((d.serveAll mint (requests (x.1.take 11))).serve mint (.getByEmail "e")).1 =
        .ok (.user u))
    (by decide +kernel)
  obtain ⟨hdrawn, hserial, he, hr, hfirst⟩ := of_decide_eq_true hend
  have hd : d.Reachable mint := .serve (.serve .empty _) _
  have hm : mint.Fresh s.store.drawn := by
    rw [hdrawn]
    decide +kernel
  have hbenign := benign_of_faultless hfaults
  refine ⟨es, _, _, s, h, hserial, hbenign, he, hr, hfirst, ?_⟩
  intro htrue
  have hiff := getByEmail_eq_iff hd h hm hserial hbenign he hr
  rw [hfirst] at hiff
  exact absurd (hiff.mpr htrue) (by decide)

end System

end UserDirectory
