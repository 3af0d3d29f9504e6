import UserDirectory.Proofs.Cached.Amendment

namespace UserDirectory

open UserDirectory.Json

namespace System

variable {w : Wiring} {mint : Mint} {s s' : System} {es E : List Event} {t : TaskId}
  {S : User → Prop} {d : Directory} {id : Uuid} {a : StoreAnswer}

/-- Whether the cache is rid of some users for good. -/
structure Rid (S : User → Prop) (s : System) : Prop where
  fenced : s.Fenced S
  entries : ∀ {id e u}, s.cache.entry? (CacheKey.user id) = some e →
    User.codec.ofEntry e.bytes = .ok u → ¬ S u

theorem Rid.or {S' S'' : User → Prop} (h : s.Rid S) (h' : s.Rid S')
    (himp : ∀ u, S'' u → S u ∨ S' u) : s.Rid S'' where
  fenced := h.fenced.or h'.fenced himp
  entries he hu hs := (himp _ hs).elim (h.entries he hu) (h'.entries he hu)

theorem Rid.of_imp {S' : User → Prop} (h : s.Rid S) (himp : ∀ u, S' u → S u) : s.Rid S' :=
  h.or h fun u hu => Or.inl (himp u hu)

theorem Stride.rid (hs : Stride w mint E d s es s')
    (hS : ∀ u, S u → s.store.view u.id ≠ some u) (h : s.Rid S) : s'.Rid S where
  fenced := hs.step.fenced hs.coherent.orderly hs.coherent.sound hS h.fenced
  entries := by
    intro id e u he hu
    rcases hs.step.userEntry_cases hs.quiet he with he | ⟨t, v, p, ht, rfl, hbytes⟩
    · exact h.entries he hu
    · rw [hbytes, v.ofEntry_toBytes] at hu
      cases hu
      exact (h.fenced t _ ht).1

/-- Whether the cache is rid of all that the answer to a write of a user supersedes, as seen when
the store has become `d`. -/
def Cleared (d : Directory) (id : Uuid) (a : StoreAnswer) (s : System) : Prop :=
  s.store.Confirms id a ∧ s.Rid (d.Superseded id a)

theorem Stride.cleared (hs : Stride w mint E d s es s') (h : s.Cleared d id a) :
    s'.Cleared d id a := by
  refine ⟨h.1.mono hs.grows, hs.rid ?_ h.2⟩
  intro u hu
  exact (hu.of_extends h.1 hs.limit_before hs.sound).ne_view h.1 hs.coherent.sound

theorem Coherent.cleared (hc : Coherent w mint s) {emails : List String} {x : CacheAnswer}
    (ht : s.tasks t = some ⟨.dropEntry id emails a, .replied (.cache (.ok x))⟩)
    (hd : d.Sound mint) (hle : s.store.Extends d) : s.Cleared d id a := by
  have hconfirms : s.store.Confirms id a := hc.confirmed t _ ht
  obtain ⟨hfenced, hgone⟩ := hc.dropping t id emails a _ ht
  refine ⟨hconfirms, hfenced.of_imp fun u hu => hu.of_extends hconfirms hle hd, ?_⟩
  intro id' e u he hu hs
  have hv := hc.mem_history he hu
  have hid : id' = id := (hc.sound.id_of_mem_history hv).symm.trans hs.id_eq
  rw [hid, hgone x rfl] at he
  cases he

/-- Whether a task has been seen to fail at dropping an entry, if it has. -/
def Reported (E : List Event) (t : TaskId) (s : System) : Prop :=
  ∀ id emails a e, s.tasks t = some ⟨.dropEntry id emails a, .replied (.cache (.error e))⟩ →
    .exchanged t (.remove (CacheKey.user id)) (.error e) ∈ E

theorem Call.reported {s₀ : System} {es₀ : List Event} {j : Job} {b : StoreReply}
    (c : Call w mint s₀ es₀ s t j b) : (c.first.spawn c.stage).Reported E t := by
  intro id emails a e hp
  obtain ⟨-, hready⟩ := Process.mk.inj (c.eq_of_tasks hp)
  cases hready

theorem Stride.reported (hs : Stride w mint E d s es s') (h : s.Reported E t) :
    s'.Reported E t := by
  intro id emails a e hp
  generalize hst : (⟨.dropEntry id emails a, .replied (.cache (.error e))⟩ : Process) = p at hp
  cases hs.step.origin hs.coherent.orderly.tidy hp with
  | same ht =>
      subst hst
      exact h id emails a e ht
  | exchanged ht hq hes hcache =>
      obtain ⟨rfl, he⟩ := Process.mk.inj hst
      cases hq
      cases he
  | failed ht hq hes =>
      cases hst
      cases hq
      exact hs.seen (by simp [hes])
  | _ => cases hst

/-- Whether a task has failed to drop the entry of a user, or has cleared the cache. -/
def Dropped (E : List Event) (t : TaskId) (d : Directory) (s : System) (id : Uuid)
    (a : StoreAnswer) : Prop :=
  (∃ e, .exchanged t (.remove (CacheKey.user id)) (.error e) ∈ E) ∨ s.Cleared d id a

theorem Stride.dropped (hs : Stride w mint E d s es s') (h : Dropped E t d s id a) :
    Dropped E t d s' id a :=
  h.imp_right hs.cleared

theorem Stride.dropped_of_reply (hs : Stride w mint E d s es s') {emails : List String}
    {x : CacheReply} (ht : s.tasks t = some ⟨.dropEntry id emails a, .replied (.cache x)⟩)
    (hrep : s.Reported E t) : Dropped E t d s id a := by
  cases x with
  | error e => exact Or.inl ⟨e, hrep _ _ _ _ ht⟩
  | ok x => exact Or.inr (hs.coherent.cleared ht hs.sound hs.limit_before)

def clearing (E : List Event) (t : TaskId) (d : Directory) (q : StoreRequest) (unserved : Prop)
    (reply : StoreReply → Prop) (s : System) : Duty where
  request := q
  unserved := unserved
  reply := reply
  dropped := Dropped E t d s

variable {q : StoreRequest} {U U' : Prop} {R R' : StoreReply → Prop}

theorem Stride.furthers (hs : Stride w mint E d s es s') (hrep : s.Reported E t)
    (hU : (∀ q r, .served t q r ∉ es) → U → U')
    (hR : (∀ q r, .served t q r ∉ es) → ∀ r, R r → R' r)
    (hserved : .served t q (s.store.serve mint q).1 ∈ es → U → R' (s.store.serve mint q).1)
    (hrefused : ∀ {q e}, .refused t q e ∈ es → U → R' (.error e)) :
    s.Furthers mint es t (clearing E t d q U R s) (clearing E t d q U' R' s') where
  request := rfl
  unserved := hU
  reply := hR
  dropped _ _ := hs.dropped
  served := by
    rintro q' hmem rfl
    exact hserved hmem
  refused := hrefused
  dropping ht _ := hs.dropped (hs.dropped_of_reply ht hrep)

/-- A write ends with what the store has replied, and the cache is clear of what it supersedes
unless dropping the entry has failed. -/
theorem Stride.wrote {b : StoreReply} (hs : Stride w mint E d s es s') (hw : w.isNone = false)
    (hrep : s.Reported E t)
    (h : ∀ p, s.tasks t = some p → p.Writes (clearing E t d q U R s))
    (hret : .returned t b ∈ es) :
    R b ∧ ∀ a id, b = .ok a → q.Concerns id a →
      ∃ id', q.Concerns id' a ∧ Dropped E t d s' id' a := by
  have hfits := hs.coherent.orderly.fits
  obtain ⟨st, r, ht, hnext, -, -⟩ := hs.step.of_returned hret
  have hresults := hs.coherent.orderly.tidy.results ht hnext
  obtain ⟨hR, hdropped⟩ := hresults.writes (h _ ht) hw <| by
    rintro id emails a rfl
    obtain ⟨x, rfl⟩ := (hfits _ _ ht _ rfl).cache
    exact hs.dropped_of_reply ht hrep
  refine ⟨hR, ?_⟩
  intro a id ha hid
  obtain ⟨id', hid', hd⟩ := hdropped a id ha hid
  exact ⟨id', hid', hs.dropped hd⟩

end System

end UserDirectory
