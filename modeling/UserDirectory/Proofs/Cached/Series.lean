import UserDirectory.Proofs.Cached.Course

namespace UserDirectory

/-- Whether all tasks that were started for jobs of some kind have returned. -/
def Returned (P : Job → Prop) (es : List Event) : Prop :=
  ∀ t j, .began t j ∈ es → P j → ∃ r, .returned t r ∈ es

/-- Whether jobs of some kind are done one after the other, each when those before it have
returned. -/
def OneByOne (P : Job → Prop) (es : List Event) : Prop :=
  ∀ es₁ t j es₂, es = es₁ ++ .began t j :: es₂ → P j → Returned P es₁

variable {P : Job → Prop} {es es₁ es₂ : List Event}

section Decide

variable [DecidablePred P]

/-- Whether a task has returned if this is its start for a job of some kind. -/
def Event.isAnswered (P : Job → Prop) [DecidablePred P] (es : List Event) : Event → Bool
  | .began t j => !decide (P j) || es.any fun | .returned u _ => t = u | _ => false
  | _ => true

theorem returned_iff : Returned P es ↔ ∀ e ∈ es, e.isAnswered P es = true := by
  constructor
  · intro h e he
    cases e with
    | began t j =>
        rw [Event.isAnswered, Bool.or_eq_true, Bool.not_eq_true', decide_eq_false_iff_not]
        by_cases hj : P j
        · obtain ⟨r, hr⟩ := h t j he hj
          exact Or.inr (List.any_eq_true.mpr ⟨_, hr, by simp⟩)
        · exact Or.inl hj
    | _ => rfl
  · intro h t j hmem hj
    have hanswered := h _ hmem
    rw [Event.isAnswered, decide_eq_true hj] at hanswered
    obtain ⟨e, he, hreturned⟩ := List.any_eq_true.mp hanswered
    cases e with
    | returned u r =>
        obtain rfl : t = u := by simpa using hreturned
        exact ⟨r, he⟩
    | _ => cases hreturned

instance : Decidable (Returned P es) := decidable_of_iff' _ returned_iff

/-- Whether an event may follow others if jobs of some kind are done one after the other. -/
def Event.follows (P : Job → Prop) [DecidablePred P] (es : List Event) : Event → Bool
  | .began _ j => !decide (P j) || decide (Returned P es)
  | _ => true

theorem oneByOne_iff :
    OneByOne P es ↔ ∀ i, (hi : i < es.length) → es[i].follows P (es.take i) = true := by
  constructor
  · intro h i hi
    have hsplit : es = es.take i ++ es[i] :: es.drop (i + 1) := by
      rw [List.getElem_cons_drop, List.take_append_drop]
    cases he : es[i] with
    | began t j =>
        rw [he] at hsplit
        by_cases hj : P j
        · simp [Event.follows, h _ t j _ hsplit hj]
        · simp [Event.follows, hj]
    | _ => rfl
  · rintro h es₁ t j es₂ rfl hj
    have hfollows := h es₁.length (by simp)
    rw [List.getElem_append_right (Nat.le_refl _)] at hfollows
    simpa [Event.follows, hj] using hfollows

instance : Decidable (OneByOne P es) := decidable_of_iff' _ oneByOne_iff

end Decide

theorem OneByOne.of_prefix (h : OneByOne P es) (hearly : es₁ <+: es) : OneByOne P es₁ := by
  rintro es₃ t j es₄ rfl
  obtain ⟨es₂, rfl⟩ := hearly
  have hes : es₃ ++ .began t j :: es₄ ++ es₂ = es₃ ++ .began t j :: (es₄ ++ es₂) := by simp
  exact h es₃ t j _ hes

theorem exists_last_began (h : ∃ t j, .began t j ∈ es ∧ P j) :
    ∃ es₁ t j es₂, es = es₁ ++ .began t j :: es₂ ∧ P j ∧ ∀ t j, .began t j ∈ es₂ → ¬ P j := by
  induction es with
  | nil =>
      obtain ⟨t, j, hmem, -⟩ := h
      cases hmem
  | cons e rest ih =>
      by_cases hrest : ∃ t j, .began t j ∈ rest ∧ P j
      · obtain ⟨es₁, t, j, es₂, rfl, hj, hlast⟩ := ih hrest
        exact ⟨e :: es₁, t, j, es₂, rfl, hj, hlast⟩
      · obtain ⟨t, j, hmem, hj⟩ := h
        have hnone : ∀ t j, .began t j ∈ rest → ¬ P j :=
          fun t j hmem hj => hrest ⟨t, j, hmem, hj⟩
        rcases List.mem_cons.mp hmem with rfl | hmem
        · exact ⟨[], t, j, rest, rfl, hj, hnone⟩
        · exact absurd hj (hnone t j hmem)

namespace System

variable {w : Wiring} {mint : Mint} {s s' : System} {t : TaskId} {j : Job} {a b : StoreReply}

theorem Run.lt_nextTask (h : Run w mint s es s') (hs : Orderly w s) (hr : .returned t a ∈ es) :
    t < s'.nextTask := by
  induction h with
  | refl => cases hr
  | @step x x' es es' h hx ih =>
      rcases List.mem_append.mp hr with hr | hr
      · exact Nat.lt_of_lt_of_le (ih hr) hx.nextTask_le
      · obtain ⟨st, r, ht, -⟩ := hx.of_returned hr
        exact Nat.lt_of_lt_of_le ((h.orderly_of hs).lt_nextTask ht) hx.nextTask_le

theorem Run.nextTask_le_of_began (h : Run w mint s es s') (hj : .began t j ∈ es) :
    s.nextTask ≤ t := by
  obtain ⟨es₁, es₂, rfl⟩ := List.append_of_mem hj
  obtain ⟨s₁, st, h₁, -, rfl, -⟩ := h.split_began rfl
  exact h₁.nextTask_le

theorem Run.tasks_of_returned (h : Run w mint s es s') (hs : Orderly w s)
    (hr : .returned t a ∈ es) : s'.tasks t = none := by
  induction h with
  | refl => cases hr
  | @step x x' es es' h hx ih =>
      have ho := h.orderly_of hs
      rcases List.mem_append.mp hr with hr | hr
      · have hnone := ih hr
        have hlt := h.lt_nextTask hs hr
        rcases hp : x'.tasks t with _ | p
        · rfl
        · exact absurd ((hx.origin ho.tidy hp).eq_nextTask hnone) (Nat.ne_of_lt hlt)
      · exact hx.tasks_of_returned ho.tidy hr

theorem Run.returned_unique (h : Run w mint s es s') (hs : Orderly w s)
    (ha : .returned t a ∈ es) (hb : .returned t b ∈ es) : a = b := by
  induction h with
  | refl => cases ha
  | @step x x' es es' h hx ih =>
      -- A task that has returned before takes no step in which it could return.
      have hbefore : ∀ {a b}, .returned t a ∈ es → .returned t b ∉ es' := by
        intro a b ha hb
        obtain ⟨st, r, ht, -⟩ := hx.of_returned hb
        rw [h.tasks_of_returned hs ha] at ht
        cases ht
      rcases List.mem_append.mp ha with ha | ha
      · rcases List.mem_append.mp hb with hb | hb
        · exact ih ha hb
        · exact absurd hb (hbefore ha)
      · rcases List.mem_append.mp hb with hb | hb
        · exact absurd ha (hbefore hb)
        · obtain ⟨st, r, -, -, hes, -⟩ := hx.of_returned ha
          rw [hes] at hb
          have hba : b = a := by simpa using hb
          exact hba.symm

section After

variable {x : System} (h₁ : Run w mint s es₁ x) (h₂ : Run w mint x es₂ s') (hs : Orderly w s)

include h₁ h₂ hs

theorem Run.returned_after (hj : .began t j ∈ es₂) (hr : .returned t a ∈ es₁ ++ es₂) :
    .returned t a ∈ es₂ := by
  rcases List.mem_append.mp hr with hr | hr
  · exact absurd (h₁.lt_nextTask hs hr) (Nat.not_lt.mpr (h₂.nextTask_le_of_began hj))
  · exact hr

theorem Run.all_returned_after (hall : Returned P (es₁ ++ es₂)) : Returned P es₂ := by
  intro t j hmem hj
  obtain ⟨r, hr⟩ := hall t j (List.mem_append_right _ hmem) hj
  exact ⟨r, h₁.returned_after h₂ hs hmem hr⟩

theorem Run.series_after (hone : OneByOne P (es₁ ++ es₂)) : OneByOne P es₂ := by
  rintro es₃ t j es₄ rfl hj
  obtain ⟨y, -, h₃, -⟩ := h₂.split_began rfl
  exact h₁.all_returned_after h₃ hs (hone _ t j es₄ (by simp) hj)

end After

theorem Course.call_of_returned (h : Course w mint s es s') (he : es = es₁ ++ .began t j :: es₂)
    (hr : .returned t a ∈ es) : ∃ c : Call w mint s es s' t j a, c.earlier = es₁ := by
  obtain ⟨s₁, st, h₁, -, ht, -⟩ := h.run.split_began he
  have hr₂ : .returned t a ∈ es₂ := by
    rw [he] at hr
    rcases List.mem_append.mp hr with hr | hr
    · exact absurd ht (Nat.ne_of_lt (h₁.lt_nextTask h.start.orderly hr))
    · simpa using hr
  obtain ⟨es₃, es₄, rfl⟩ := List.append_of_mem hr₂
  obtain ⟨c, hearlier, -⟩ := h.call he
  exact ⟨c, hearlier⟩

theorem Call.not_began (c : Call w mint s es s' t j a) (h : Course w mint s es s')
    (hone : OneByOne P es) (hj : P j) (u : TaskId) (j' : Job)
    (hmem : .began u j' ∈ c.during ++ c.returning) : ¬ P j' := by
  intro hj'
  rcases List.mem_append.mp hmem with hmem | hmem
  · obtain ⟨x, y, hsplit⟩ := List.append_of_mem hmem
    have hes : es = (c.earlier ++ .began t j :: x) ++ .began u j' ::
        (y ++ (c.returning ++ c.later)) := by
      have hevents := c.events
      rw [hsplit] at hevents
      simpa using hevents
    obtain ⟨r, hr⟩ := hone _ u j' _ hes hj' t j (by simp) hj
    rcases List.mem_append.mp hr with hr | hr
    · have hlt := c.before.run.lt_nextTask h.start.orderly hr
      exact absurd c.name (Nat.ne_of_lt hlt)
    · have hduring : .returned t r ∈ c.during := by
        rw [hsplit]
        simp at hr
        simp [hr]
      have hnone := c.course.run.tasks_of_returned c.course.start.orderly hduring
      obtain ⟨st, x, ht, -⟩ := c.step.of_returned c.returned
      rw [hnone] at ht
      cases ht
  · obtain ⟨st, -, -, hes, -⟩ := c.step.of_began hmem
    have hreturned := c.returned
    rw [hes] at hreturned
    simp at hreturned

/-- What holds from the start, and is kept by each call of a series and beside them, holds when all
of them have returned. -/
theorem Course.by_calls {M : List Event → System → Prop} (h : Course w mint s es s')
    (hone : OneByOne P es) (hall : Returned P es) (hstart : M [] s)
    (hbeside : ∀ {es₁ x es₂ y}, es₁ ++ es₂ <+: es → Course w mint x es₂ y →
      (∀ t j, .began t j ∈ es₂ → ¬ P j) → M es₁ x → M (es₁ ++ es₂) y)
    (hcall : ∀ {es₁ y t j a} (c : Call w mint s es₁ y t j a), es₁ <+: es → Course w mint s es₁ y →
      P j → M c.earlier c.first → M c.past c.next) : M es s' := by
  -- The last call is taken off; what comes before it is a shorter series that has returned.
  have hprefixes : ∀ n es₁ y, es₁.length = n → es₁ <+: es → Course w mint s es₁ y →
      Returned P es₁ → M es₁ y := by
    intro n
    induction n using Nat.strong_induction_on with
    | _ n ih =>
        intro es₁ y hn hearly hcourse hreturned
        by_cases hbegan : ∃ t j, .began t j ∈ es₁ ∧ P j
        · obtain ⟨es₂, t, j, es₃, he, hj, hlast⟩ := exists_last_began hbegan
          obtain ⟨r, hr⟩ := hreturned t j (by simp [he]) hj
          obtain ⟨c, rfl⟩ := hcourse.call_of_returned he hr
          have hshort : c.earlier.length < n := by
            rw [← hn, congrArg List.length he, List.length_append, List.length_cons]
            omega
          have hbefore : c.earlier <+: es := List.IsPrefix.trans ⟨_, he.symm⟩ hearly
          have hpast := hcall c hearly hcourse hj
            (ih _ hshort _ _ rfl hbefore c.before (hone.of_prefix hearly _ t j _ he hj))
          have hlater : ∀ t j, .began t j ∈ c.later → ¬ P j := by
            intro u j' hj'
            refine hlast u j' ?_
            obtain ⟨-, hes₃⟩ := List.cons.inj (List.append_cancel_left (c.events.symm.trans he))
            rw [← hes₃]
            simp [hj']
          have hsplit := c.past_append
          rw [hsplit] at hearly ⊢
          exact hbeside hearly c.after hlater hpast
        · have hnone : ∀ t j, .began t j ∈ es₁ → ¬ P j :=
            fun t j hmem hj => hbegan ⟨t, j, hmem, hj⟩
          exact @hbeside [] s es₁ y hearly hcourse hnone hstart
  exact hprefixes _ es s' rfl List.prefix_rfl h hall

end System

end UserDirectory
