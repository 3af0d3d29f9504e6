import Mathlib.Data.List.Infix
import UserDirectory.Proofs.Sql.Transcript
import UserDirectory.Sql.Migrator

namespace UserDirectory.Sql

/-- Whether an exchange takes a connection or reads over one. -/
def Exchange.Looks : Exchange → Prop
  | .connect | .prepare _ _ | .query _ => True
  | _ => False

def Migration.changes (m : Migration) : List Change :=
  [.text m.sql, .statement (recordMigration m.name)]

theorem Session.afterAll_of_looks {lost : Bool} {s : Session} {es : List Exchanged}
    (hs : s.progress = .idle) (hes : ∀ x ∈ es, x.exchange.Looks) : s.afterAll lost es = s := by
  induction es with
  | nil => rfl
  | cons x es ih =>
      have hx := hes x List.mem_cons_self
      have hsame : s.after lost x = s := by
        obtain ⟨progress, committed⟩ := s
        cases hs
        obtain ⟨e, answer⟩ := x
        cases e with
        | connect => cases answer <;> rfl
        | prepare sql kept => cases answer <;> rfl
        | query st => cases answer <;> rfl
        | _ => exact hx.elim
      have hrest := ih fun y hy => hes y (List.mem_cons_of_mem x hy)
      calc s.afterAll lost (x :: es) = (s.after lost x).afterAll lost es := rfl
        _ = s := by rw [hsame, hrest]

namespace Migrator

open Conversation

variable {name : String} {m : Migration} {ms done : List Migration} {es : List Exchanged}
  {s : Session} {g : Failure MigrationError} {lost : Bool}

def countOf (rows : List Row) : Except (Failure MigrationError) Bool :=
  match rows with
  | [row] =>
    match numberOfRow? row with
    | some n => .ok (0 < n)
    | none => .error .unreadable
  | _ => .error (.error (.fault (.database .unexpectedRows)))

theorem yields_countOf {rows : List Row} {r : Except (Failure MigrationError) Bool}
    (h : Yields (.onlyRow .fault rows >>= fun row => .read ((numberOfRow? row).map (0 < ·)) :
      Talk Bool) es r) : es = [] ∧ r = countOf rows := by
  match rows with
  | [] => exact yields_fail.mp h
  | _ :: _ :: _ => exact yields_fail.mp h
  | [row] =>
      have hread : Yields (.read ((numberOfRow? row).map (0 < ·)) : Talk Bool) es r := h
      rw [countOf]
      cases hnumber : numberOfRow? row with
      | none =>
          rw [hnumber] at hread
          exact yields_fail.mp hread
      | some n =>
          rw [hnumber] at hread
          exact yields_done.mp hread

/-- What is exchanged when a statement has been run that reads rows. -/
def question (st : Statement) (rows : List Row) : List Exchanged :=
  [⟨.connect, .ok ()⟩, ⟨.prepare st.sql false, .ok ()⟩, ⟨.query st, .ok rows⟩]

theorem looks_question {st : Statement} {rows : List Row} :
    ∀ x ∈ question st rows, x.exchange.Looks := by
  simp [question, Exchange.Looks]

/-- Something fails while a connection is only read over. -/
structure Unanswered (es : List Exchanged) : Prop where
  looks : ∀ x ∈ es, x.exchange.Looks
  fails : ∃ x ∈ es, x.Fails

theorem yields_question_bind {α : Type} {st : Statement} {f : List Row → Talk α}
    {r : Except (Failure MigrationError) α}
    (h : Yields (do
      exchange .connect
      exchange (.prepare st.sql false)
      exchange (.query st) >>= f) es r) :
    (∃ g, r = .error g ∧ Unanswered es) ∨
      ∃ rows es', es = question st rows ++ es' ∧ Yields (f rows) es' r := by
  rcases yields_exchange_bind.mp h with ⟨f, rfl, rfl⟩ | ⟨_, _, rfl, hready⟩
  · exact Or.inl ⟨_, rfl, by simp [Exchange.Looks], _, List.mem_cons_self, f, rfl⟩
  rcases yields_exchange_bind.mp hready with ⟨f, rfl, rfl⟩ | ⟨_, _, rfl, hasked⟩
  · exact Or.inl ⟨_, rfl, by simp [Exchange.Looks], _, List.mem_cons_of_mem _ List.mem_cons_self,
      f, rfl⟩
  rcases yields_exchange_bind.mp hasked with ⟨f, rfl, rfl⟩ | ⟨rows, es', rfl, hrest⟩
  · exact Or.inl ⟨_, rfl, by simp [Exchange.Looks], _,
      List.mem_cons_of_mem _ (List.mem_cons_of_mem _ List.mem_cons_self), f, rfl⟩
  exact Or.inr ⟨rows, es', rfl, hrest⟩

theorem yields_isApplied {r : Except (Failure MigrationError) Bool}
    (h : Yields (isApplied name) es r) :
    (∃ g, r = .error g ∧ Unanswered es) ∨
      ∃ rows, r = countOf rows ∧ es = question (countRecords name) rows := by
  rcases yields_question_bind h with hunanswered | ⟨rows, es', rfl, hread⟩
  · exact Or.inl hunanswered
  · obtain ⟨rfl, rfl⟩ := yields_countOf hread
    exact Or.inr ⟨rows, rfl, List.append_nil _⟩

theorem looks_of_yields_isApplied {r : Except (Failure MigrationError) Bool}
    (h : Yields (isApplied name) es r) : ∀ x ∈ es, x.exchange.Looks := by
  rcases yields_isApplied h with ⟨_, -, hunanswered⟩ | ⟨_, -, rfl⟩
  · exact hunanswered.looks
  · exact looks_question

/-- What is exchanged when the body of a migration's transaction has succeeded. -/
def body (m : Migration) (n : Nat) : List Exchanged :=
  [⟨.batch m.sql, .ok ()⟩, ⟨.prepare (recordMigration m.name).sql false, .ok ()⟩,
    ⟨.execute (recordMigration m.name), .ok n⟩]

theorem yields_body {r : Except (Failure MigrationError) Unit}
    (h : Yields (do
      .exchange (.failed m.name) (.batch m.sql)
      exchange (.prepare (recordMigration m.name).sql false)
      let _ ← exchange (.execute (recordMigration m.name))) es r) :
    (∃ g, r = .error g ∧ ∀ x ∈ es, x.exchange.IsPlain) ∨ ∃ n, r = .ok () ∧ es = body m n := by
  rcases yields_exchange_bind.mp h with ⟨f, rfl, rfl⟩ | ⟨_, _, rfl, hchanged⟩
  · exact Or.inl ⟨_, rfl, by simp⟩
  rcases yields_exchange_bind.mp hchanged with ⟨f, rfl, rfl⟩ | ⟨_, _, rfl, hready⟩
  · exact Or.inl ⟨_, rfl, by simp⟩
  rcases yields_exchange_bind.mp hready with ⟨f, rfl, rfl⟩ | ⟨n, _, rfl, hend⟩
  · exact Or.inl ⟨_, rfl, by simp⟩
  obtain ⟨rfl, rfl⟩ := yields_pure.mp hend
  exact Or.inr ⟨n, rfl, rfl⟩

/-- Whether nothing is exchanged after a commit that fails. -/
def StopsAtLoss (es : List Exchanged) : Prop :=
  ∀ es₁ f es₂, es = es₁ ++ ⟨.commit, .error f⟩ :: es₂ → es₂ = []

theorem StopsAtLoss.append {es' : List Exchanged} (h : ∀ f, ⟨.commit, .error f⟩ ∉ es)
    (h' : StopsAtLoss es') : StopsAtLoss (es ++ es') := by
  intro es₁ f es₂ he
  rcases List.append_eq_append_iff.mp he with ⟨as, rfl, he'⟩ | ⟨bs, rfl, he'⟩
  · exact h' as f es₂ he'
  · cases bs with
    | nil => exact h' [] f es₂ he'.symm
    | cons x bs =>
        obtain ⟨rfl, -⟩ := List.cons.inj he'
        exact absurd (by simp) (h f)

/-- Applying a migration commits all its changes at once, or none. -/
theorem afterAll_apply (lost : Bool) {r : Except (Failure MigrationError) Unit}
    (hs : s.progress = .idle) (h : Yields (apply m) es r) :
    (r = .ok () ∧ s.afterAll lost es = ⟨.idle, s.committed ++ [m.changes]⟩) ∨
      ∃ g, r = .error g ∧ (s.afterAll lost es).progress.changes = [] ∧
        ((s.afterAll lost es).committed = s.committed ∨
          lost = true ∧ (s.afterAll lost es).committed = s.committed ++ [m.changes]) := by
  obtain ⟨progress, committed⟩ := s
  cases hs
  rcases yields_exchange_bind.mp h with ⟨f, rfl, rfl⟩ | ⟨_, _, rfl, htransaction⟩
  · exact Or.inr ⟨_, rfl, rfl, Or.inl rfl⟩
  cases htransaction.transacted with
  | refused f back => exact Or.inr ⟨_, rfl, rfl, Or.inl rfl⟩
  | @rolledBack es g hbody back =>
      rcases yields_body hbody with ⟨_, ⟨⟩, hplain⟩ | ⟨_, ⟨⟩, -⟩
      have hbegun : ((Session.mk (.inside []) committed).afterAll lost es).committed = committed :=
        Session.committed_afterAll_of_plain (by simp) hplain
      have hback : (Session.mk .idle committed).afterAll lost
          (⟨.connect, .ok ()⟩ :: ⟨.begin, .ok ()⟩ :: (es ++ [⟨.rollback, back⟩])) =
            ⟨.idle, committed⟩ := by
        show (Session.mk (.inside []) committed).afterAll lost (es ++ [⟨.rollback, back⟩]) = _
        rw [Session.afterAll_append]
        exact congrArg (Session.mk .idle) hbegun
      exact Or.inr ⟨g, rfl, congrArg (fun s => s.progress.changes) hback,
        Or.inl (congrArg Session.committed hback)⟩
  | uncommitted hbody f =>
      rcases yields_body hbody with ⟨_, ⟨⟩, -⟩ | ⟨n, -, rfl⟩
      cases lost with
      | true => exact Or.inr ⟨_, rfl, rfl, Or.inr ⟨rfl, rfl⟩⟩
      | false => exact Or.inr ⟨_, rfl, rfl, Or.inl rfl⟩
  | committed hbody =>
      rcases yields_body hbody with ⟨_, ⟨⟩, -⟩ | ⟨n, -, rfl⟩
      exact Or.inl ⟨rfl, rfl⟩

/-- How a list of migrations is gone through: what is exchanged, and which of them are applied. -/
inductive Handles : List Migration → List Exchanged → List Migration → Prop
  | nil : Handles [] [] []
  | skip {m : Migration} {ms done : List Migration} {es es' : List Exchanged}
      (hrecorded : Yields (isApplied m.name) es (.ok true)) (h : Handles ms es' done) :
      Handles (m :: ms) (es ++ es') done
  | apply {m : Migration} {ms done : List Migration} {es es' es'' : List Exchanged}
      (hnew : Yields (isApplied m.name) es (.ok false)) (happlied : Yields (apply m) es' (.ok ()))
      (h : Handles ms es'' done) : Handles (m :: ms) (es ++ (es' ++ es'')) (m :: done)

/-- How handling a migration ends in a failure. -/
def Stumbles (m : Migration) (es : List Exchanged) (g : Failure MigrationError) : Prop :=
  Yields (isApplied m.name) es (.error g) ∨
    ∃ es₁ es₂, es = es₁ ++ es₂ ∧ Yields (isApplied m.name) es₁ (.ok false) ∧
      Yields (Migrator.apply m) es₂ (.error g)

namespace Handles

theorem sublist (h : Handles ms es done) : done.Sublist ms := by
  induction h with
  | nil => exact List.Sublist.refl []
  | skip _ _ ih => exact ih.cons _
  | apply _ _ _ ih => exact ih.cons_cons _

theorem afterAll (h : Handles ms es done) (hs : s.progress = .idle) :
    s.afterAll lost es = ⟨.idle, s.committed ++ done.map Migration.changes⟩ := by
  induction h generalizing s with
  | nil =>
      obtain ⟨progress, committed⟩ := s
      cases hs
      simp [Session.afterAll]
  | skip hrecorded _ ih =>
      rw [Session.afterAll_append,
        Session.afterAll_of_looks hs (looks_of_yields_isApplied hrecorded)]
      exact ih hs
  | apply hnew happlied _ ih =>
      rw [Session.afterAll_append, Session.afterAll_append,
        Session.afterAll_of_looks hs (looks_of_yields_isApplied hnew)]
      rcases afterAll_apply lost hs happlied with ⟨-, hcommitted⟩ | ⟨_, ⟨⟩, -⟩
      rw [hcommitted, ih rfl, List.map_cons, List.append_assoc, List.singleton_append]

end Handles

theorem Stumbles.afterAll (h : Stumbles m es g) (lost : Bool) (hs : s.progress = .idle) :
    (s.afterAll lost es).progress.changes = [] ∧
      ((s.afterAll lost es).committed = s.committed ∨
        lost = true ∧ (s.afterAll lost es).committed = s.committed ++ [m.changes]) := by
  rcases h with hasked | ⟨es₁, es₂, rfl, hnew, happlied⟩
  · rw [Session.afterAll_of_looks hs (looks_of_yields_isApplied hasked), hs]
    exact ⟨rfl, Or.inl rfl⟩
  · rw [Session.afterAll_append, Session.afterAll_of_looks hs (looks_of_yields_isApplied hnew)]
    rcases afterAll_apply lost hs happlied with ⟨⟨⟩, -⟩ | ⟨_, -, hdropped⟩
    exact hdropped

/-- Whether a migrator has been told that a name is recorded. -/
def Found (name : String) (es : List Exchanged) : Prop :=
  ∃ rows, countOf rows = .ok true ∧ ⟨.query (countRecords name), .ok rows⟩ ∈ es

theorem Found.mono {es' : List Exchanged} (h : Found name es) (hes : ∀ x ∈ es, x ∈ es') :
    Found name es' := by
  obtain ⟨rows, hcount, hmem⟩ := h
  exact ⟨rows, hcount, hes _ hmem⟩

/-- Whether every answer to a migrator says that its migrations are recorded. -/
def Informed (ms : List Migration) (es : List Exchanged) : Prop :=
  ∀ m ∈ ms, ∀ rows, ⟨.query (countRecords m.name), .ok rows⟩ ∈ es → countOf rows = .ok true

theorem Informed.mono {ms' : List Migration} {es' : List Exchanged} (h : Informed ms es)
    (hms : ∀ m ∈ ms', m ∈ ms) (hes : ∀ x ∈ es', x ∈ es) : Informed ms' es' :=
  fun m hm rows hmem => h m (hms m hm) rows (hes _ hmem)

theorem found_of_isApplied (h : Yields (isApplied name) es (.ok true)) : Found name es := by
  rcases yields_isApplied h with ⟨_, ⟨⟩, -⟩ | ⟨rows, hcount, rfl⟩
  exact ⟨rows, hcount.symm, by simp [question]⟩

namespace Handles

theorem found (h : Handles ms es done) : ∀ m ∈ ms, m ∈ done ∨ Found m.name es := by
  induction h with
  | nil => simp
  | skip hrecorded _ ih =>
      intro m hm
      rcases List.mem_cons.mp hm with rfl | hm
      · exact Or.inr ((found_of_isApplied hrecorded).mono fun _ => List.mem_append_left _)
      · exact (ih m hm).imp_right fun h => h.mono fun _ => List.mem_append_right _
  | apply _ _ _ ih =>
      intro m hm
      rcases List.mem_cons.mp hm with rfl | hm
      · exact Or.inl List.mem_cons_self
      · refine (ih m hm).imp (List.mem_cons_of_mem _) fun h => h.mono ?_
        intro x hx
        exact List.mem_append_right _ (List.mem_append_right _ hx)

end Handles

def namesOf (rows : List Row) : Except (Failure MigrationError) (List String) :=
  match rows.mapM textOfRow? with
  | some names => .ok names
  | none => .error .unreadable

/-- What a conversation leaves in the database that has applied the migrations `kept`. -/
structure Leaves (ms : List Migration) (lost : Bool) (es : List Exchanged)
    (kept : List Migration) : Prop where
  sublist : kept.Sublist ms
  committed : (kept = [] ∧ (Session.afterAll lost {} es).committed = []) ∨
    (Session.afterAll lost {} es).committed =
      [.text createMigrationTable] :: kept.map Migration.changes

namespace Ran

variable {r : Except (Failure MigrationError) (List String)}

end Ran

end Migrator

end UserDirectory.Sql
