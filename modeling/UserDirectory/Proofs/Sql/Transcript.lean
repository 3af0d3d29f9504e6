import UserDirectory.Sql.Transcript

namespace UserDirectory.Sql

variable {ε α β : Type} {es : List Exchanged}

theorem Exchanged.succeeds_or_fails (x : Exchanged) : x.Succeeds ∨ x.Fails := by
  rcases h : x.answer with f | result
  · exact Or.inr ⟨f, h⟩
  · exact Or.inl ⟨result, h⟩

namespace Conversation

variable {c : Conversation ε α} {f : α → Conversation ε β} {r : Except (Failure ε) α}
  {r' : Except (Failure ε) β} {blame : Fault → ε}

theorem yields_run (server : Server) (past : List Exchanged) (c : Conversation ε α) :
    ∃ es, (c.run server past).1 = past ++ es ∧ Yields c es (c.run server past).2 := by
  induction c generalizing past with
  | done a => exact ⟨[], (List.append_nil past).symm, .done a⟩
  | fail f => exact ⟨[], (List.append_nil past).symm, .fail f⟩
  | log event next ih =>
      obtain ⟨es, hes, h⟩ := ih past
      exact ⟨es, hes, .log h⟩
  | ask e next ih =>
      obtain ⟨es, hes, h⟩ := ih (server past e) (past ++ [⟨e, server past e⟩])
      refine ⟨⟨e, server past e⟩ :: es, ?_, .ask _ h⟩
      rw [run, hes, List.append_assoc, List.singleton_append]

theorem run_bind (server : Server) (past : List Exchanged) (c : Conversation ε α)
    (f : α → Conversation ε β) :
    (c >>= f).run server past =
      match c.run server past with
      | (past', .ok a) => (f a).run server past'
      | (past', .error g) => (past', .error g) := by
  show (c.bind f).run server past = _
  induction c generalizing past with
  | done a => rfl
  | fail g => rfl
  | log event next ih => exact ih past
  | ask e next ih => exact ih (server past e) (past ++ [⟨e, server past e⟩])

theorem bind_assoc {γ : Type} (c : Conversation ε α) (f : α → Conversation ε β)
    (g : β → Conversation ε γ) : c >>= f >>= g = c >>= fun a => f a >>= g := by
  show (c.bind f).bind g = c.bind fun a => (f a).bind g
  induction c with
  | done a => rfl
  | fail h => rfl
  | log event next ih => simp only [bind, ih]
  | ask e next ih => simp only [bind, ih]

theorem yields_done {a : α} : Yields (.done a : Conversation ε α) es r ↔ es = [] ∧ r = .ok a := by
  constructor
  · rintro ⟨⟩
    exact ⟨rfl, rfl⟩
  · rintro ⟨rfl, rfl⟩
    exact .done a

theorem yields_pure {a : α} :
    Yields (pure a : Conversation ε α) es r ↔ es = [] ∧ r = .ok a :=
  yields_done

theorem yields_fail {f : Failure ε} :
    Yields (.fail f : Conversation ε α) es r ↔ es = [] ∧ r = .error f := by
  constructor
  · rintro ⟨⟩
    exact ⟨rfl, rfl⟩
  · rintro ⟨rfl, rfl⟩
    exact .fail f

theorem yields_throw {e : ε} :
    Yields (throw e : Conversation ε α) es r ↔ es = [] ∧ r = .error (.error e) :=
  yields_fail

theorem yields_log {event : LogEvent} : Yields (.log event c) es r ↔ Yields c es r := by
  constructor
  · rintro ⟨⟩
    assumption
  · exact .log

theorem yields_ask {e : Exchange} {next : Except Fault e.Result → Conversation ε α} :
    Yields (.ask e next) es r ↔
      ∃ answer es', es = ⟨e, answer⟩ :: es' ∧ Yields (next answer) es' r := by
  constructor
  · rintro ⟨⟩
    exact ⟨_, _, rfl, ‹_›⟩
  · rintro ⟨answer, es', rfl, h⟩
    exact .ask answer h

theorem yields_bind : Yields (c >>= f) es r' ↔
    (∃ g, Yields c es (.error g) ∧ r' = .error g) ∨
      ∃ es₁ a es₂, es = es₁ ++ es₂ ∧ Yields c es₁ (.ok a) ∧ Yields (f a) es₂ r' := by
  show Yields (c.bind f) es r' ↔ _
  induction c generalizing es with
  | done a =>
      simp only [bind, yields_done]
      constructor
      · intro h
        exact Or.inr ⟨[], a, es, rfl, ⟨rfl, rfl⟩, h⟩
      · rintro (⟨g, ⟨-, ⟨⟩⟩, -⟩ | ⟨_, _, es₂, rfl, ⟨rfl, ⟨⟩⟩, h⟩)
        exact h
  | fail g =>
      simp only [bind, yields_fail]
      constructor
      · rintro ⟨rfl, rfl⟩
        exact Or.inl ⟨g, ⟨rfl, rfl⟩, rfl⟩
      · rintro (⟨_, ⟨rfl, ⟨⟩⟩, rfl⟩ | ⟨_, _, _, -, ⟨-, ⟨⟩⟩, -⟩)
        exact ⟨rfl, rfl⟩
  | log event next ih => simpa only [bind, yields_log] using ih
  | ask e next ih =>
      simp only [bind, yields_ask, ih]
      constructor
      · rintro ⟨answer, es', rfl, ⟨g, h, rfl⟩ | ⟨es₁, a, es₂, rfl, h, h'⟩⟩
        · exact Or.inl ⟨g, ⟨answer, es', rfl, h⟩, rfl⟩
        · exact Or.inr ⟨_, a, es₂, rfl, ⟨answer, es₁, rfl, h⟩, h'⟩
      · rintro (⟨g, ⟨answer, es', rfl, h⟩, rfl⟩ | ⟨_, a, es₂, rfl, ⟨answer, es₁, rfl, h⟩, h'⟩)
        · exact ⟨answer, es', rfl, Or.inl ⟨g, h, rfl⟩⟩
        · exact ⟨answer, es₁ ++ es₂, rfl, Or.inr ⟨es₁, a, es₂, rfl, h, h'⟩⟩

theorem yields_exchange {e : Exchange} {r : Except (Failure ε) e.Result} :
    Yields (exchange blame e) es r ↔
      (∃ result, es = [⟨e, .ok result⟩] ∧ r = .ok result) ∨
        ∃ f, es = [⟨e, .error f⟩] ∧ r = .error (.error (blame f)) := by
  rw [exchange, yields_ask]
  constructor
  · rintro ⟨answer, es', rfl, h⟩
    rcases answer with f | result
    · obtain ⟨rfl, rfl⟩ := yields_throw.mp h
      exact Or.inr ⟨f, rfl, rfl⟩
    · obtain ⟨rfl, rfl⟩ := yields_done.mp h
      exact Or.inl ⟨result, rfl, rfl⟩
  · rintro (⟨result, rfl, rfl⟩ | ⟨f, rfl, rfl⟩)
    · exact ⟨.ok result, [], rfl, .done result⟩
    · exact ⟨.error f, [], rfl, .fail _⟩

theorem yields_rollingBack : Yields c.rollingBack es r ↔
    (∃ a, r = .ok a ∧ Yields c es r) ∨
      ∃ g es' answer, r = .error g ∧ es = es' ++ [⟨.rollback, answer⟩] ∧ Yields c es' r := by
  induction c generalizing es with
  | done a =>
      simp only [rollingBack, yields_done]
      constructor
      · rintro ⟨rfl, rfl⟩
        exact Or.inl ⟨a, rfl, rfl, rfl⟩
      · rintro (⟨_, rfl, rfl, ⟨⟩⟩ | ⟨_, _, _, rfl, -, -, ⟨⟩⟩)
        exact ⟨rfl, rfl⟩
  | fail g =>
      simp only [rollingBack, yields_ask, yields_fail]
      constructor
      · rintro ⟨answer, _, rfl, rfl, rfl⟩
        exact Or.inr ⟨g, [], answer, rfl, rfl, rfl, rfl⟩
      · rintro (⟨_, rfl, -, ⟨⟩⟩ | ⟨_, _, answer, rfl, rfl, rfl, ⟨⟩⟩)
        exact ⟨answer, [], rfl, rfl, rfl⟩
  | log event next ih => simpa only [rollingBack, yields_log] using ih
  | ask e next ih =>
      simp only [rollingBack, yields_ask, ih]
      constructor
      · rintro ⟨answer, es', rfl, ⟨a, rfl, h⟩ | ⟨g, es₁, back, rfl, rfl, h⟩⟩
        · exact Or.inl ⟨a, rfl, answer, es', rfl, h⟩
        · exact Or.inr ⟨g, _, back, rfl, rfl, answer, es₁, rfl, h⟩
      · rintro (⟨a, rfl, answer, es', rfl, h⟩ | ⟨g, _, back, rfl, rfl, answer, es₁, rfl, h⟩)
        · exact ⟨answer, es', rfl, Or.inl ⟨a, rfl, h⟩⟩
        · exact ⟨answer, _, rfl, Or.inr ⟨g, es₁, back, rfl, rfl, h⟩⟩

theorem yields_exchange_bind {e : Exchange} {f : e.Result → Conversation ε β} :
    Yields (exchange blame e >>= f) es r' ↔
      (∃ g, es = [⟨e, .error g⟩] ∧ r' = .error (.error (blame g))) ∨
        ∃ result es', es = ⟨e, .ok result⟩ :: es' ∧ Yields (f result) es' r' := by
  rw [yields_bind]
  simp only [yields_exchange]
  constructor
  · rintro (⟨_, ⟨_, -, ⟨⟩⟩ | ⟨g, rfl, ⟨⟩⟩, rfl⟩ | ⟨_, _, es', rfl, ⟨_, rfl, ⟨⟩⟩ | ⟨_, -, ⟨⟩⟩, h⟩)
    · exact Or.inl ⟨g, rfl, rfl⟩
    · exact Or.inr ⟨_, es', rfl, h⟩
  · rintro (⟨g, rfl, rfl⟩ | ⟨result, es', rfl, h⟩)
    · exact Or.inl ⟨_, Or.inr ⟨g, rfl, rfl⟩, rfl⟩
    · exact Or.inr ⟨_, result, es', rfl, Or.inl ⟨result, rfl, rfl⟩, h⟩

/-- How a transaction goes: it is committed if it has been begun and its body has succeeded, and
rolled back otherwise. -/
inductive Transacted (blame : Fault → ε) (body : Conversation ε α) :
    List Exchanged → Except (Failure ε) α → Prop
  | refused (f : Fault) (back : Except Fault Unit) :
      Transacted blame body [⟨.begin, .error f⟩, ⟨.rollback, back⟩] (.error (.error (blame f)))
  | rolledBack {es : List Exchanged} {g : Failure ε} (h : Yields body es (.error g))
      (back : Except Fault Unit) :
      Transacted blame body (⟨.begin, .ok ()⟩ :: (es ++ [⟨.rollback, back⟩])) (.error g)
  | uncommitted {es : List Exchanged} {a : α} (h : Yields body es (.ok a)) (f : Fault) :
      Transacted blame body (⟨.begin, .ok ()⟩ :: (es ++ [⟨.commit, .error f⟩]))
        (.error (.error (blame f)))
  | committed {es : List Exchanged} {a : α} (h : Yields body es (.ok a)) :
      Transacted blame body (⟨.begin, .ok ()⟩ :: (es ++ [⟨.commit, .ok ()⟩])) (.ok a)

theorem Yields.transacted (h : Yields (transaction blame c) es r) : Transacted blame c es r := by
  rcases yields_bind.mp h with ⟨g, hguarded, rfl⟩ | ⟨_, a, _, rfl, hguarded, hcommit⟩
  · rcases yields_rollingBack.mp hguarded with ⟨_, ⟨⟩, -⟩ | ⟨_, _, back, ⟨⟩, rfl, hbegun⟩
    rcases yields_exchange_bind.mp hbegun with ⟨f, rfl, ⟨⟩⟩ | ⟨_, _, rfl, hbody⟩
    · exact .refused f back
    · exact .rolledBack hbody back
  · rcases yields_rollingBack.mp hguarded with ⟨_, ⟨⟩, hbegun⟩ | ⟨_, _, _, ⟨⟩, -, -⟩
    rcases yields_exchange_bind.mp hbegun with ⟨_, -, ⟨⟩⟩ | ⟨_, _, rfl, hbody⟩
    rcases yields_exchange_bind.mp hcommit with ⟨f, rfl, rfl⟩ | ⟨_, _, rfl, hend⟩
    · exact .uncommitted hbody f
    · obtain ⟨rfl, rfl⟩ := yields_pure.mp hend
      exact .committed hbody

end Conversation

/-- Whether an exchange neither takes a connection nor opens or ends a transaction. -/
def Exchange.IsPlain : Exchange → Prop
  | .connect | .begin | .commit | .rollback => False
  | _ => True

@[simp] theorem Exchange.isPlain_prepare (sql : String) (kept : Bool) :
    (Exchange.prepare sql kept).IsPlain :=
  trivial

@[simp] theorem Exchange.isPlain_query (s : Statement) : (Exchange.query s).IsPlain := trivial

@[simp] theorem Exchange.isPlain_execute (s : Statement) : (Exchange.execute s).IsPlain := trivial

@[simp] theorem Exchange.isPlain_batch (sql : String) : (Exchange.batch sql).IsPlain := trivial

def Exchanged.change? (x : Exchanged) : Option Change :=
  match x.exchange with
  | .execute s => some (.statement s)
  | .batch sql => some (.text sql)
  | _ => none

namespace Session

variable {lost : Bool} {s : Session} {cs : List Change}

theorem afterAll_append (lost : Bool) (s : Session) (es es' : List Exchanged) :
    s.afterAll lost (es ++ es') = (s.afterAll lost es).afterAll lost es' :=
  List.foldl_append

/-- What an exchange can do: nothing, drop the open transaction or open one, change something if it
succeeds, or commit. -/
theorem after_cases (lost : Bool) (s : Session) (x : Exchanged) :
    s.after lost x = s ∨
      (∃ p : Progress, p.changes = [] ∧ s.after lost x = { s with progress := p }) ∨
      (∃ c, x.Succeeds ∧ x.change? = some c ∧ s.after lost x = s.change c) ∨
      s.after lost x = s.commit := by
  have hspoil : s.spoil = s ∨
      ∃ p : Progress, p.changes = [] ∧ s.spoil = { s with progress := p } := by
    rw [spoil]
    split
    · exact Or.inl rfl
    · exact Or.inr ⟨.broken, rfl, rfl⟩
  rcases x with ⟨e, f | result⟩
  · cases e with
    | rollback => exact Or.inr (Or.inl ⟨.idle, rfl, rfl⟩)
    | commit =>
        cases lost with
        | true => exact Or.inr (Or.inr (Or.inr rfl))
        | false => exact hspoil.imp_right Or.inl
    | _ => exact hspoil.imp_right Or.inl
  · cases e with
    | connect => exact Or.inr (Or.inl ⟨.idle, rfl, rfl⟩)
    | prepare sql kept => exact Or.inl rfl
    | query st => exact Or.inl rfl
    | execute st => exact Or.inr (Or.inr (Or.inl ⟨.statement st, ⟨result, rfl⟩, rfl, rfl⟩))
    | batch sql => exact Or.inr (Or.inr (Or.inl ⟨.text sql, ⟨result, rfl⟩, rfl, rfl⟩))
    | begin => exact Or.inr (Or.inl ⟨.inside [], rfl, rfl⟩)
    | commit => exact Or.inr (Or.inr (Or.inr rfl))
    | rollback => exact Or.inr (Or.inl ⟨.idle, rfl, rfl⟩)

theorem after_of_fails {x : Exchanged} (hplain : x.exchange.IsPlain) (hx : x.Fails) :
    s.after lost x = s.spoil := by
  rcases x with ⟨e, f | result⟩
  · cases e with
    | rollback => exact hplain.elim
    | commit => exact hplain.elim
    | _ => rfl
  · obtain ⟨f, ⟨⟩⟩ := hx

theorem after_of_succeeds {x : Exchanged} (hplain : x.exchange.IsPlain) (hx : x.Succeeds) :
    s.after lost x = x.change?.elim s s.change := by
  rcases x with ⟨e, f | result⟩
  · obtain ⟨result, ⟨⟩⟩ := hx
  · cases e with
    | prepare sql kept => rfl
    | query st => rfl
    | execute st => rfl
    | batch sql => rfl
    | _ => exact hplain.elim

theorem after_of_plain {x : Exchanged} (hs : s.progress ≠ .idle) (hx : x.exchange.IsPlain) :
    (s.after lost x).committed = s.committed ∧ (s.after lost x).progress ≠ .idle := by
  obtain ⟨progress, committed⟩ := s
  rcases x.succeeds_or_fails with hsucceeds | hfails
  · rw [after_of_succeeds hx hsucceeds]
    cases x.change? with
    | none => exact ⟨rfl, hs⟩
    | some c => cases progress <;> simp_all [change]
  · rw [after_of_fails hx hfails]
    cases progress <;> simp_all [spoil]

theorem committed_afterAll_of_plain (hs : s.progress ≠ .idle)
    (hes : ∀ x ∈ es, x.exchange.IsPlain) : (s.afterAll lost es).committed = s.committed := by
  induction es generalizing s with
  | nil => rfl
  | cons x es ih =>
      obtain ⟨hcommitted, hprogress⟩ := after_of_plain hs (hes x List.mem_cons_self)
      exact (ih hprogress fun y hy => hes y (List.mem_cons_of_mem x hy)).trans hcommitted

theorem afterAll_of_succeeds (hes : ∀ x ∈ es, x.exchange.IsPlain ∧ x.Succeeds) (cs : List Change)
    (done : List (List Change)) :
    afterAll lost ⟨.inside cs, done⟩ es =
      ⟨.inside (cs ++ es.filterMap Exchanged.change?), done⟩ := by
  induction es generalizing cs with
  | nil => simp [afterAll]
  | cons x es ih =>
      obtain ⟨hplain, hsucceeds⟩ := hes x List.mem_cons_self
      have hcons : afterAll lost ⟨.inside cs, done⟩ (x :: es) =
          afterAll lost (after lost ⟨.inside cs, done⟩ x) es := rfl
      rw [hcons, after_of_succeeds hplain hsucceeds]
      have hrest := ih fun y hy => hes y (List.mem_cons_of_mem x hy)
      cases h : x.change? with
      | none => simp [h, hrest]
      | some c => simp [h, hrest, change]

end Session

end UserDirectory.Sql
