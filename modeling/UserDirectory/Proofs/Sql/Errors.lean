import Mathlib.Data.List.Basic
import UserDirectory.Proofs.Sql.Saving
import UserDirectory.Sql.StoredRows

/-!
Which error a request to a user store ends in. Its conversation breaks off at the first exchange
that fails, or whose answer the request cannot do with, and the error says which of them it was.
-/

namespace UserDirectory.Sql

theorem Exchange.IsPlain.ne_connect {e : Exchange} (h : e.IsPlain) : e ≠ .connect := by
  rintro rfl
  exact h

theorem Exchange.IsPlain.ne_rollback {e : Exchange} (h : e.IsPlain) : e ≠ .rollback := by
  rintro rfl
  exact h

theorem Datum.type_eq_uuid {d : Datum} : d.type = .uuid ↔ ∃ u, d = .uuid u := by
  cases d <;> simp [type]

theorem Datum.type_eq_text {d : Datum} : d.type = .text ↔ ∃ s, d = .text s := by
  cases d <;> simp [type]

theorem Datum.type_eq_bool {d : Datum} : d.type = .bool ↔ ∃ b, d = .bool b := by
  cases d <;> simp [type]

theorem Datum.type_eq_int {d : Datum} : d.type = .int ↔ ∃ i, d = .int i := by
  cases d <;> simp [type]

/-- Which answer a request cannot do with although the exchange succeeds. -/
inductive Refusal
  | never
  | noRow (lookup : Statement) (missing : UserError)
  | noRowChanged (change : Statement) (missing : UserError)
  | notOneRow (select : Statement)

/-- The error for an answer that a request cannot do with. -/
def Refusal.error? : Refusal → Exchanged → Option UserError
  | .noRow lookup missing, ⟨.query s, .ok rows⟩ =>
    if s = lookup ∧ rows.length = 0 then some missing else none
  | .noRowChanged change missing, ⟨.execute s, .ok affected⟩ =>
    if s = change ∧ affected = 0 then some missing else none
  | .notOneRow select, ⟨.query s, .ok rows⟩ =>
    if s = select ∧ rows.length ≠ 1 then some (.database .unexpectedRows) else none
  | _, _ => none

theorem Refusal.error?_never (x : Exchanged) : never.error? x = none := rfl

theorem Refusal.eq_of_notOneRow {select : Statement} {x : Exchanged} {e : UserError}
    (h : (notOneRow select).error? x = some e) : e = .database .unexpectedRows := by
  rcases x with ⟨exchange, f | result⟩ <;> cases exchange <;> simp_all [error?]

/-- The error that an exchange leads to. Whether a roll back succeeds is never seen. -/
def Exchanged.error? (refusal : Refusal) : Exchanged → Option UserError
  | ⟨.rollback, _⟩ => none
  | ⟨_, .error f⟩ => some f.toUserError
  | x => refusal.error? x

/-- Whether the columns of a row have some types, and none is without value. -/
def Row.Holds (types : List DatumType) (row : Row) : Prop :=
  ∃ values : List Datum, row = values.map some ∧ values.map Datum.type = types

/-- Whether all rows that an exchange reads hold values of some types. -/
def Exchanged.Holds (types : List DatumType) (x : Exchanged) : Prop :=
  ∀ s rows, x = ⟨.query s, .ok rows⟩ → ∀ row ∈ rows, Row.Holds types row

theorem userOfRow?_ne_none {row : Row} (h : Row.Holds currentTypes row) :
    userOfRow? row ≠ none := by
  obtain ⟨values, rfl, htypes⟩ := h
  simp only [currentTypes, List.map_eq_cons_iff, List.map_eq_nil_iff] at htypes
  obtain ⟨_, _, rfl, h1, _, _, rfl, h2, _, _, rfl, h3, _, _, rfl, h4, _, _, rfl, h5, _, _, rfl, h6,
    _, _, rfl, h7, _, _, rfl, h8, _, _, rfl, h9, rfl⟩ := htypes
  obtain ⟨_, rfl⟩ := Datum.type_eq_uuid.mp h1
  obtain ⟨_, rfl⟩ := Datum.type_eq_uuid.mp h2
  obtain ⟨_, rfl⟩ := Datum.type_eq_bool.mp h3
  obtain ⟨_, rfl⟩ := Datum.type_eq_text.mp h4
  obtain ⟨_, rfl⟩ := Datum.type_eq_text.mp h5
  obtain ⟨_, rfl⟩ := Datum.type_eq_text.mp h6
  obtain ⟨_, rfl⟩ := Datum.type_eq_text.mp h7
  obtain ⟨_, rfl⟩ := Datum.type_eq_bool.mp h8
  obtain ⟨_, rfl⟩ := Datum.type_eq_text.mp h9
  nofun

theorem numberOfRow?_ne_none {row : Row} (h : Row.Holds [.int] row) : numberOfRow? row ≠ none := by
  obtain ⟨values, rfl, htypes⟩ := h
  obtain ⟨_, rfl, htype⟩ := List.map_eq_singleton_iff.mp htypes
  obtain ⟨_, rfl⟩ := Datum.type_eq_int.mp htype
  nofun

theorem mapM_userOfRow?_ne_none {rows : List Row} (h : ∀ row ∈ rows, userOfRow? row ≠ none) :
    rows.mapM userOfRow? ≠ none := by
  induction rows with
  | nil => nofun
  | cons row rows ih =>
      obtain ⟨u, hu⟩ := Option.ne_none_iff_exists'.mp (h row List.mem_cons_self)
      obtain ⟨us, hus⟩ := Option.ne_none_iff_exists'.mp
        (ih fun row' hrow' => h row' (List.mem_cons_of_mem row hrow'))
      rw [List.mapM_cons, hu, hus]
      nofun

/-- The error that a request ends in. -/
def errorOf? {α : Type} : Except (Failure UserError) α → Option UserError
  | .error (.error e) => some e
  | _ => none

/-- Whether exchanges follow a plan: each is made unless one before it has led to an error. -/
inductive FollowsPlan (refusal : Refusal) : List Exchange → List Exchanged → Prop
  | nil : FollowsPlan refusal [] []
  | stops {x : Exchanged} {e : UserError} (h : x.error? refusal = some e) (plan : List Exchange) :
      FollowsPlan refusal (x.exchange :: plan) [x]
  | cons {x : Exchanged} {plan : List Exchange} {es : List Exchanged}
      (h : x.error? refusal = none) (hrest : FollowsPlan refusal plan es) :
      FollowsPlan refusal (x.exchange :: plan) (x :: es)

/-- Whether a request has followed a plan; after a failure it may have rolled back. -/
def Planned {α : Type} (refusal : Refusal) (plan : List Exchange) (es : List Exchanged)
    (r : Except (Failure UserError) α) : Prop :=
  FollowsPlan refusal plan es ∨ ∃ made back g, es = made ++ [⟨.rollback, back⟩] ∧ r = .error g ∧
    FollowsPlan refusal plan made

/-- How the exchanges of a request over its connection decide how it ends. -/
structure DecidesEnd {α : Type} (refusal : Refusal) (types : List DatumType)
    (plan : List Exchange) (es : List Exchanged) (r : Except (Failure UserError) α) : Prop where
  planned : Planned refusal plan es r
  errors : es.filterMap (Exchanged.error? refusal) = (errorOf? r).toList
  connected : ∀ x ∈ es, x.exchange ≠ .connect
  rolledBack : ∀ x ∈ es, x.exchange = .rollback → ∃ g, r = .error g
  unreadable : r = .error .unreadable → ∃ x ∈ es, ¬ x.Holds types

/-- Which error a request ends in, by what it has exchanged. -/
structure Classified {α : Type} (refusal : Refusal) (types : List DatumType)
    (plan : List Exchange) (run : List Exchanged × Except (Failure UserError) α) : Prop where
  planned : Planned refusal plan run.1 run.2
  notFound_iff : ∀ {e}, e.kind = .notFound →
    (run.2 = .error (.error e) ↔ ∃ x ∈ run.1, refusal.error? x = some e)
  /-- The codes are those of a violated foreign key, check or not-null constraint, and of a text
  that does not stand for a value. -/
  server : ∀ {e code message}, ⟨e, .error (.database (.server code message))⟩ ∈ run.1 →
    e ≠ .rollback → run.2 = .error (.error
      (if code ∈ ["23503", "23514", "23502", "22P02"] then .badRequest message
        else .database (.server code message)))
  client : ∀ {e f}, ⟨e, .error (.database f)⟩ ∈ run.1 → e ≠ .rollback →
    (∀ code message, f ≠ .server code message) → run.2 = .error (.error (.database f))
  pool : ∀ {f}, ⟨.connect, .error (.pool f)⟩ ∈ run.1 →
    run = ([⟨.connect, .error (.pool f)⟩], .error (.error (.databasePool f)))
  /-- There is no error without an exchange that leads to it. -/
  cause : ∀ {e}, run.2 = .error (.error e) → (∃ x ∈ run.1, refusal.error? x = some e) ∨
    ∃ x ∈ run.1, x.exchange ≠ .rollback ∧ ∃ f, x.answer = .error f ∧ e = f.toUserError
  ok : ∀ {a}, run.2 = .ok a → ∀ x ∈ run.1, x.Succeeds
  ends : (∀ x ∈ run.1, x.Holds types) → (∃ a, run.2 = .ok a) ∨ ∃ e, run.2 = .error (.error e)

section DecidesEnd

variable {refusal : Refusal} {types : List DatumType} {plan plan' : List Exchange}
  {es es' : List Exchanged} {x : Exchanged} {α β : Type} {r : Except (Failure UserError) α}
  {e : UserError}

theorem Exchanged.error?_eq_some : x.error? refusal = some e ↔
    refusal.error? x = some e ∨
      x.exchange ≠ .rollback ∧ ∃ f, x.answer = .error f ∧ e = f.toUserError := by
  rcases x with ⟨exchange, f | result⟩
  · have hrefusal : refusal.error? ⟨exchange, .error f⟩ = none := by
      cases refusal <;> cases exchange <;> rfl
    rw [hrefusal]
    cases exchange <;> simp [error?, eq_comm]
  · cases exchange with
    | rollback => cases refusal <;> simp [error?, Refusal.error?]
    | _ => simp [error?]

theorem errorOf?_eq_some : errorOf? r = some e ↔ r = .error (.error e) := by
  rcases r with (e' | _) | a <;> simp [errorOf?]

theorem Fault.kind_toUserError (f : Fault) : f.toUserError.kind ≠ .notFound := by
  cases f with
  | pool f => nofun
  | database f =>
      cases f with
      | server code message =>
          rw [toUserError, DatabaseFault.toUserError]
          split <;> nofun
      | _ => nofun

namespace FollowsPlan

theorem append (h : FollowsPlan refusal plan es) (hes : ∀ x ∈ es, x.error? refusal = none)
    (h' : FollowsPlan refusal plan' es') : FollowsPlan refusal (plan ++ plan') (es ++ es') := by
  induction h with
  | nil => exact h'
  | stops hx plan =>
      rw [hes _ List.mem_cons_self] at hx
      cases hx
  | cons hx _ ih => exact .cons hx (ih fun y hy => hes y (List.mem_cons_of_mem _ hy))

theorem extend (h : FollowsPlan refusal plan es) (hes : ∃ x ∈ es, x.error? refusal ≠ none)
    (plan' : List Exchange) : FollowsPlan refusal (plan ++ plan') es := by
  induction h with
  | nil =>
      obtain ⟨x, ⟨⟩, -⟩ := hes
  | stops hx plan => exact .stops hx (plan ++ plan')
  | @cons x plan es hx _ ih =>
      refine .cons hx (ih ?_)
      obtain ⟨y, hy, hne⟩ := hes
      rcases List.mem_cons.mp hy with rfl | hy
      · exact absurd hx hne
      · exact ⟨y, hy, hne⟩

end FollowsPlan

namespace DecidesEnd

theorem error_iff (h : DecidesEnd refusal types plan es r) :
    r = .error (.error e) ↔ ∃ x ∈ es, x.error? refusal = some e := by
  rw [← List.mem_filterMap, h.errors, Option.mem_toList, errorOf?_eq_some]

theorem done (a : α) : DecidesEnd refusal types [] [] (.ok a) :=
  ⟨Or.inl .nil, rfl, nofun, nofun, nofun⟩

theorem error {g : Failure UserError}
    (h : DecidesEnd refusal types plan es (.error g : Except _ β)) :
    DecidesEnd refusal types plan es (.error g : Except _ α) where
  planned := by
    rcases h.planned with hplan | ⟨made, back, -, hes, -, hplan⟩
    · exact Or.inl hplan
    · exact Or.inr ⟨made, back, g, hes, rfl, hplan⟩
  errors := by
    rw [h.errors]
    cases g <;> rfl
  connected := h.connected
  rolledBack _ _ _ := ⟨g, rfl⟩
  unreadable hg := by
    cases hg
    exact h.unreadable rfl

theorem one (hconnect : x.exchange ≠ .connect) (hback : x.exchange ≠ .rollback)
    (herror : x.error? refusal = errorOf? r) (hread : r = .error .unreadable → ¬ x.Holds types) :
    DecidesEnd refusal types [x.exchange] [x] r where
  planned := by
    cases h : x.error? refusal with
    | none => exact Or.inl (.cons h .nil)
    | some e => exact Or.inl (.stops h [])
  errors := by
    rw [List.filterMap_cons, herror]
    cases errorOf? r <;> rfl
  connected := by simpa using hconnect
  rolledBack := by simpa using fun h => (hback h).elim
  unreadable h := ⟨x, List.mem_singleton_self x, hread h⟩

theorem append {b : β} (h : DecidesEnd refusal types plan es (.ok b))
    (h' : DecidesEnd refusal types plan' es' r) :
    DecidesEnd refusal types (plan ++ plan') (es ++ es') r where
  planned := by
    have hes : ∀ x ∈ es, x.error? refusal = none := List.filterMap_eq_nil_iff.mp h.errors
    rcases h.planned with hplan | ⟨_, _, _, -, ⟨⟩, -⟩
    rcases h'.planned with hplan' | ⟨made, back, g, rfl, hr, hplan'⟩
    · exact Or.inl (hplan.append hes hplan')
    · exact Or.inr ⟨es ++ made, back, g, (List.append_assoc _ _ _).symm, hr,
        hplan.append hes hplan'⟩
  errors := by
    rw [List.filterMap_append, h.errors, h'.errors]
    rfl
  connected := List.forall_mem_append.mpr ⟨h.connected, h'.connected⟩
  rolledBack := by
    refine List.forall_mem_append.mpr ⟨?_, h'.rolledBack⟩
    intro x hx hback
    obtain ⟨_, ⟨⟩⟩ := h.rolledBack x hx hback
  unreadable hr := by
    obtain ⟨x, hx, hnot⟩ := h'.unreadable hr
    exact ⟨x, List.mem_append_right es hx, hnot⟩

theorem extend (h : DecidesEnd refusal types plan es (.error (.error e) : Except _ α))
    (plan' : List Exchange) :
    DecidesEnd refusal types (plan ++ plan') es (.error (.error e) : Except _ α) where
  planned := by
    obtain ⟨x, hx, herror⟩ := h.error_iff.mp rfl
    have hne : x.error? refusal ≠ none := by simp [herror]
    rcases h.planned with hplan | ⟨made, back, g, rfl, hr, hplan⟩
    · exact Or.inl (hplan.extend ⟨x, hx, hne⟩ plan')
    · refine Or.inr ⟨made, back, g, rfl, hr, hplan.extend ⟨x, ?_, hne⟩ plan'⟩
      rcases List.mem_append.mp hx with hx | hx
      · exact hx
      · cases List.mem_singleton.mp hx
        exact absurd rfl hne
  errors := h.errors
  connected := h.connected
  rolledBack := h.rolledBack
  unreadable := h.unreadable

theorem append_rollback {g : Failure UserError}
    (h : DecidesEnd refusal types plan es (.error g : Except _ α))
    (hback : ∀ x ∈ es, x.exchange ≠ .rollback) (back : Except Fault Unit) :
    DecidesEnd refusal types plan (es ++ [⟨.rollback, back⟩]) (.error g : Except _ α) where
  planned := by
    rcases h.planned with hplan | ⟨made, _, _, rfl, -, -⟩
    · exact Or.inr ⟨es, back, g, rfl, rfl, hplan⟩
    · exact absurd rfl (hback _ (List.mem_append_right made (List.mem_singleton_self _)))
  errors := by
    rw [List.filterMap_append, h.errors]
    exact List.append_nil _
  connected := List.forall_mem_append.mpr ⟨h.connected, by simp⟩
  rolledBack _ _ _ := ⟨g, rfl⟩
  unreadable hg := by
    obtain ⟨x, hx, hnot⟩ := h.unreadable hg
    exact ⟨x, List.mem_append_left _ hx, hnot⟩

theorem fails (e : Exchange) (hconnect : e ≠ .connect) (hback : e ≠ .rollback) (f : Fault)
    (plan : List Exchange) :
    DecidesEnd refusal types (e :: plan) [⟨e, .error f⟩]
      (.error (.error f.toUserError) : Except (Failure UserError) α) := by
  have hone : DecidesEnd refusal types [e] [⟨e, .error f⟩]
      (.error (.error f.toUserError) : Except (Failure UserError) α) :=
    one (x := ⟨e, .error f⟩) hconnect hback
      (Exchanged.error?_eq_some.mpr (Or.inr ⟨hback, f, rfl, rfl⟩)) nofun
  exact hone.extend plan

end DecidesEnd

theorem Classified.of_error_iff (hplan : Planned refusal plan es r)
    (herror : ∀ e, r = .error (.error e) ↔ ∃ x ∈ es, x.error? refusal = some e)
    (hpool : ∀ f, ⟨.connect, .error f⟩ ∈ es → es = [⟨.connect, .error f⟩])
    (hback : ∀ x ∈ es, x.exchange = .rollback → ∃ g, r = .error g)
    (hread : r = .error .unreadable → ∃ x ∈ es, ¬ x.Holds types) :
    Classified refusal types plan (es, r) := by
  have hfault : ∀ {e : Exchange} {f : Fault}, ⟨e, .error f⟩ ∈ es → e ≠ .rollback →
      r = .error (.error f.toUserError) := by
    intro e f hmem he
    exact (herror _).mpr ⟨_, hmem, Exchanged.error?_eq_some.mpr (Or.inr ⟨he, f, rfl, rfl⟩)⟩
  constructor
  case planned => exact hplan
  case notFound_iff =>
    intro e he
    rw [herror]
    refine exists_congr fun x => and_congr_right fun _ => ?_
    rw [Exchanged.error?_eq_some]
    refine or_iff_left ?_
    rintro ⟨-, f, -, rfl⟩
    exact f.kind_toUserError he
  case server =>
    intro e code message hmem he
    exact hfault hmem he
  case client =>
    intro e f hmem he hf
    have hinternal : Fault.toUserError (.database f) = .database f := by
      cases f with
      | server code message => exact (hf code message rfl).elim
      | _ => rfl
    exact (hfault hmem he).trans (by rw [hinternal])
  case pool =>
    intro f hmem
    exact Prod.ext (hpool _ hmem) (hfault hmem nofun)
  case cause =>
    intro e he
    obtain ⟨x, hx, hxe⟩ := (herror e).mp he
    rcases Exchanged.error?_eq_some.mp hxe with hrefused | hfailed
    · exact Or.inl ⟨x, hx, hrefused⟩
    · exact Or.inr ⟨x, hx, hfailed⟩
  case ok =>
    rintro a rfl x hx
    rcases x.succeeds_or_fails with hsucceeds | ⟨f, hf⟩
    · exact hsucceeds
    · have hplain : x.exchange ≠ .rollback := by
        intro hrollback
        obtain ⟨_, ⟨⟩⟩ := hback x hx hrollback
      have hfailed := (herror f.toUserError).mpr
        ⟨x, hx, Exchanged.error?_eq_some.mpr (Or.inr ⟨hplain, f, hf, rfl⟩)⟩
      cases hfailed
  case ends =>
    intro hholds
    rcases r with (e | _) | a
    · exact Or.inr ⟨e, rfl⟩
    · obtain ⟨x, hx, hnot⟩ := hread rfl
      exact (hnot (hholds x hx)).elim
    · exact Or.inl ⟨a, rfl⟩

end DecidesEnd

namespace UserStore

open Conversation

variable {store : UserStore} {refusal : Refusal} {types : List DatumType} {plan : List Exchange}
  {α : Type} {es : List Exchanged} {r : Except (Failure UserError) α}

/-- A request takes one connection, and all else is exchanged over it. -/
theorem classified_of_connect {k : Unit → Talk α}
    (hk : ∀ {es r}, Yields (k ()) es r → DecidesEnd refusal types plan es r) (server : Server) :
    Classified refusal types (.connect :: plan) ((exchange .connect >>= k).run server []) := by
  obtain ⟨es, hes, hrun⟩ := yields_run server [] (exchange .connect >>= k)
  have hpair : (exchange .connect >>= k).run server [] =
      (es, ((exchange .connect >>= k).run server []).2) := Prod.ext hes rfl
  rw [hpair]
  generalize ((exchange .connect >>= k).run server []).2 = r at hrun
  rcases yields_exchange_bind.mp hrun with ⟨f, rfl, rfl⟩ | ⟨_, es, rfl, hrest⟩
  · refine .of_error_iff (Or.inl ?_) ?_ ?_ (by simp) nofun
    · exact .stops (x := ⟨.connect, .error f⟩) rfl plan
    · intro e
      simp [Exchanged.error?, eq_comm]
    · simp
  · have hdecides := hk hrest
    have hnone : Exchanged.error? refusal ⟨.connect, .ok ()⟩ = none := by
      cases refusal <;> rfl
    refine .of_error_iff ?_ ?_ ?_ ?_ ?_
    · rcases hdecides.planned with hplan | ⟨made, back, g, rfl, hr, hplan⟩
      · exact Or.inl (.cons hnone hplan)
      · exact Or.inr ⟨⟨.connect, .ok ()⟩ :: made, back, g, rfl, hr, .cons hnone hplan⟩
    · intro e
      simp [hdecides.error_iff, hnone]
    · intro f hmem
      rcases List.mem_cons.mp hmem with h | h
      · cases h
      · exact (hdecides.connected _ h rfl).elim
    · intro x hx
      rcases List.mem_cons.mp hx with rfl | hx
      · nofun
      · exact hdecides.rolledBack x hx
    · intro hr
      obtain ⟨x, hx, hnot⟩ := hdecides.unreadable hr
      exact ⟨x, List.mem_cons_of_mem _ hx, hnot⟩

theorem decidesEnd_of_prepared {sql : String} {kept : Bool} {e : Exchange} {k : e.Result → Talk α}
    (he : e.IsPlain)
    (hk : ∀ {result es r}, Yields (k result) es r →
      DecidesEnd refusal types [e] (⟨e, .ok result⟩ :: es) r)
    (h : Yields (exchange (.prepare sql kept) >>= fun _ => exchange e >>= k) es r) :
    DecidesEnd refusal types [.prepare sql kept, e] es r := by
  rcases yields_exchange_bind.mp h with ⟨f, rfl, rfl⟩ | ⟨_, es, rfl, hsent⟩
  · exact .fails (.prepare sql kept) nofun nofun f [e]
  · have hprepared : DecidesEnd refusal types [.prepare sql kept] [⟨.prepare sql kept, .ok ()⟩]
        (.ok () : Except (Failure UserError) Unit) :=
      .one (x := ⟨.prepare sql kept, .ok ()⟩) nofun nofun (by cases refusal <;> rfl) nofun
    refine hprepared.append ?_
    rcases yields_exchange_bind.mp hsent with ⟨f, rfl, rfl⟩ | ⟨result, es, rfl, hrest⟩
    · exact .fails e he.ne_connect he.ne_rollback f []
    · exact hk hrest

theorem decidesEnd_of_read {s : Statement} {rows : List Row} {o : Option α}
    (hrefusal : refusal.error? ⟨.query s, .ok rows⟩ = none)
    (ho : o = none → ¬ Exchanged.Holds types ⟨.query s, .ok rows⟩)
    (h : Yields (Conversation.read o) es r) :
    DecidesEnd refusal types [.query s] (⟨.query s, .ok rows⟩ :: es) r := by
  cases o with
  | none =>
      obtain ⟨rfl, rfl⟩ := yields_fail.mp h
      exact .one (x := ⟨.query s, .ok rows⟩) nofun nofun hrefusal fun _ => ho rfl
  | some a =>
      obtain ⟨rfl, rfl⟩ := yields_done.mp h
      exact .one (x := ⟨.query s, .ok rows⟩) nofun nofun hrefusal nofun

theorem decidesEnd_of_throw {e : Exchange} {result : e.Result} {error : UserError} (he : e.IsPlain)
    (hrefusal : refusal.error? ⟨e, .ok result⟩ = some error)
    (h : Yields (throw error : Talk α) es r) :
    DecidesEnd refusal types [e] (⟨e, .ok result⟩ :: es) r := by
  obtain ⟨rfl, rfl⟩ := yields_throw.mp h
  exact .one (x := ⟨e, .ok result⟩) he.ne_connect he.ne_rollback
    (Exchanged.error?_eq_some.mpr (Or.inl hrefusal)) nofun

theorem decidesEnd_of_pure {e : Exchange} {result : e.Result} {a : α} (he : e.IsPlain)
    (hrefusal : refusal.error? ⟨e, .ok result⟩ = none) (h : Yields (pure a : Talk α) es r) :
    DecidesEnd refusal types [e] (⟨e, .ok result⟩ :: es) r := by
  obtain ⟨rfl, rfl⟩ := yields_pure.mp h
  refine .one (x := ⟨e, .ok result⟩) he.ne_connect he.ne_rollback ?_ nofun
  refine Option.eq_none_iff_forall_ne_some.mpr ?_
  intro error herror
  rcases Exchanged.error?_eq_some.mp herror with hrefused | ⟨-, f, hf, -⟩
  · rw [hrefusal] at hrefused
    cases hrefused
  · cases hf

theorem decidesEnd_of_firstUser {s : Statement} {missing : UserError} {rows : List Row}
    {r : Except (Failure UserError) User} (h : Yields (firstUser missing rows) es r) :
    DecidesEnd (.noRow s missing) currentTypes [.query s] (⟨.query s, .ok rows⟩ :: es) r := by
  cases rows with
  | nil => exact decidesEnd_of_throw trivial (by simp [Refusal.error?]) h
  | cons row rows =>
      refine decidesEnd_of_read (by simp [Refusal.error?]) ?_ h
      intro hnone hholds
      exact userOfRow?_ne_none (hholds s _ rfl row List.mem_cons_self) hnone

theorem decidesEnd_of_users {s : Statement} {rows : List Row}
    {r : Except (Failure UserError) (List User)}
    (hrefusal : refusal.error? ⟨.query s, .ok rows⟩ = none)
    (h : Yields (Conversation.read (rows.mapM userOfRow?)) es r) :
    DecidesEnd refusal currentTypes [.query s] (⟨.query s, .ok rows⟩ :: es) r := by
  refine decidesEnd_of_read hrefusal ?_ h
  intro hnone hholds
  exact mapM_userOfRow?_ne_none (fun row hrow => userOfRow?_ne_none (hholds s _ rfl row hrow)) hnone

/-- The exchanges of a request that reads by one statement. -/
def lookupPlan (s : Statement) : List Exchange := [.connect, .prepare s.sql true, .query s]

theorem classified_rows (server : Server) {s : Statement} {k : List Row → Talk α}
    (hk : ∀ {rows es r}, Yields (k rows) es r →
      DecidesEnd refusal types [.query s] (⟨.query s, .ok rows⟩ :: es) r) :
    Classified refusal types (lookupPlan s) ((store.rows s >>= k).run server []) := by
  simp only [rows, makeReady, Conversation.bind_assoc]
  refine classified_of_connect ?_ server
  intro es r h
  exact decidesEnd_of_prepared (e := .query s) trivial hk (yields_announce_bind.mp h)

theorem classified_query (p : QueryParams) (server : Server) :
    Classified .never currentTypes (lookupPlan (listing p).build)
      ((store.query p).run server []) := by
  refine classified_rows server ?_
  intro rows es r h
  exact decidesEnd_of_users rfl (yields_log.mp h)

theorem classified_history (id : Uuid) (server : Server) :
    Classified (.noRow (versionsOfUser id) (.notFound id)) currentTypes
      (lookupPlan (versionsOfUser id)) ((store.history id).run server []) := by
  refine classified_rows server ?_
  intro rows es r h
  split at h
  · exact decidesEnd_of_throw trivial (by simp_all [Refusal.error?]) h
  · exact decidesEnd_of_users (by simp_all [Refusal.error?]) h

def countUsers : Statement := countWhere "users" "deleted_at IS NULL"

theorem classified_count (server : Server) :
    Classified (.notOneRow countUsers) [.int]
      [.connect, .prepare countUsers.sql false, .query countUsers] (count.run server []) := by
  refine classified_of_connect ?_ server
  intro es r h
  refine decidesEnd_of_prepared (e := .query countUsers) trivial ?_ h
  intro rows es r h
  rcases rows with _ | ⟨row, _ | ⟨row', rows⟩⟩
  · exact decidesEnd_of_throw trivial (by simp [Refusal.error?]; rfl) h
  · refine decidesEnd_of_read (by simp [Refusal.error?]) ?_ h
    intro hnone hholds
    exact numberOfRow?_ne_none (hholds _ _ rfl row List.mem_cons_self) hnone
  · exact decidesEnd_of_throw trivial (by simp [Refusal.error?]; rfl) h

theorem classified_delete (id : Uuid) (server : Server) :
    Classified (.noRowChanged (markDeleted id) (.notFound id)) []
      [.connect, .prepare (markDeleted id).sql true, .execute (markDeleted id)]
      ((store.delete id).run server []) := by
  simp only [delete, makeReady, Conversation.bind_assoc]
  refine classified_of_connect ?_ server
  intro es r h
  refine decidesEnd_of_prepared (e := .execute (markDeleted id)) trivial ?_
    (yields_announce_bind.mp h)
  intro affected es r h
  split at h
  · exact decidesEnd_of_throw trivial (by simp_all [Refusal.error?]) h
  · exact decidesEnd_of_pure trivial (by simp_all [Refusal.error?]) h

/-- The answer that a save of the user `u` cannot do with: a known user whose identity is not
there any more. -/
def saveRefusal (u : User) : Refusal :=
  if u.id = .nil then .never else .noRow (lockUser u.id) (.notFound u.id)

def identityPlan (u v : User) : List Exchange :=
  if u.id = .nil then [.prepare (insertUser v.id).sql false, .execute (insertUser v.id)]
  else [.prepare (lockUser u.id).sql false, .query (lockUser u.id)]

def versionPlan (v : UserVersion) : List Exchange :=
  [.prepare (insertVersion v).sql false, .execute (insertVersion v)]

def savePlan (u v : User) : List Exchange :=
  .connect :: .begin :: (identityPlan u v ++ versionPlan v.toVersion ++ [.commit])

variable {mint : Mint} {next : Nat} {u : User}

theorem decidesEnd_of_secureIdentity (types : List DatumType)
    {r : Except (Failure UserError) Unit}
    (h : Yields (store.secureIdentity (u.stage mint next)) es r) :
    DecidesEnd (saveRefusal u) types (identityPlan u (u.saved mint next)) es r := by
  by_cases hid : u.id = .nil
  · have hnew : (u.stage mint next).isNew = true := by simp [User.stage_isNew, hid]
    rw [saveRefusal, if_pos hid, identityPlan, if_pos hid, ← User.stage_user]
    simp only [secureIdentity, hnew, if_true] at h
    refine decidesEnd_of_prepared (e := .execute _) trivial ?_ (yields_announce_bind.mp h)
    exact fun h => decidesEnd_of_pure trivial rfl h
  · have hnew : (u.stage mint next).isNew = false := by simp [User.stage_isNew, hid]
    have hkept : (u.stage mint next).user.id = u.id := by simp [User.stage_user, User.saved, hid]
    rw [saveRefusal, if_neg hid, identityPlan, if_neg hid, ← hkept]
    simp only [secureIdentity, hnew, Bool.false_eq_true, if_false] at h
    refine decidesEnd_of_prepared (e := .query _) trivial ?_ (yields_announce_bind.mp h)
    intro rows es r h
    split at h
    · exact decidesEnd_of_throw trivial (by simp_all [Refusal.error?]) h
    · exact decidesEnd_of_pure trivial (by simp_all [Refusal.error?]) h

theorem decidesEnd_of_appendVersion {v : UserVersion} {r : Except (Failure UserError) Unit}
    (hrefusal : ∀ n, refusal.error? ⟨.execute (insertVersion v), .ok n⟩ = none)
    (h : Yields (store.appendVersion v) es r) :
    DecidesEnd refusal types (versionPlan v) es r := by
  refine decidesEnd_of_prepared (e := .execute _) trivial ?_ (yields_announce_bind.mp h)
  exact fun h => decidesEnd_of_pure trivial (hrefusal _) h

/-- A transaction tells what its body tells, or that it could not be begun or committed. -/
theorem decidesEnd_of_transacted {body : Talk α}
    (hbody : ∀ {es r}, Yields body es r → DecidesEnd refusal types plan es r)
    (hstopped : ∀ {es g}, Yields body es (.error g) → Stopped es g)
    (h : Transacted Fault.toUserError body es r) :
    DecidesEnd refusal types (.begin :: (plan ++ [.commit])) es r := by
  have hbegun : DecidesEnd refusal types [.begin] [⟨.begin, .ok ()⟩]
      (.ok () : Except (Failure UserError) Unit) :=
    .one (x := ⟨.begin, .ok ()⟩) nofun nofun (by cases refusal <;> rfl) nofun
  have hcommitted {a : α} : DecidesEnd refusal types [.commit] [⟨.commit, .ok ()⟩] (.ok a) :=
    .one (x := ⟨.commit, .ok ()⟩) nofun nofun (by cases refusal <;> rfl) nofun
  cases h with
  | refused f back =>
      exact (DecidesEnd.fails .begin nofun nofun f (plan ++ [.commit])).append_rollback (by simp)
        back
  | @rolledBack es g h back =>
      obtain ⟨hplain, e, rfl⟩ := hstopped h
      refine hbegun.append (((hbody h).extend [.commit]).append_rollback ?_ back)
      exact fun x hx => (hplain x hx).ne_rollback
  | uncommitted h f =>
      exact hbegun.append ((hbody h).append (.fails .commit nofun nofun f []))
  | committed h => exact hbegun.append ((hbody h).append hcommitted)

theorem classified_save (mint : Mint) (next : Nat) (u : User) (server : Server) :
    Classified (saveRefusal u) [] (savePlan u (u.saved mint next))
      ((store.save mint next u).run server []) := by
  refine classified_of_connect ?_ server
  intro es r h
  have hbody : ∀ {es r}, Yields (do
      store.secureIdentity (u.stage mint next)
      store.appendVersion (u.stage mint next).user.toVersion) es r →
      DecidesEnd (saveRefusal u) []
        (identityPlan u (u.saved mint next) ++ versionPlan (u.saved mint next).toVersion) es r := by
    intro es r h
    rcases yields_bind.mp h with ⟨g, hsecured, rfl⟩ | ⟨es₁, _, es₂, rfl, hsecured, happended⟩
    · have hdecides := decidesEnd_of_secureIdentity [] hsecured
      rcases yields_secureIdentity hsecured with
        ⟨_, ⟨⟩, hstopped⟩ | ⟨-, _, ⟨⟩, -⟩ | ⟨-, _, -, ⟨⟩, -⟩
      obtain ⟨e, rfl⟩ := hstopped.error
      exact hdecides.extend _
    · rw [User.stage_user] at happended
      refine (decidesEnd_of_secureIdentity [] hsecured).append
        (decidesEnd_of_appendVersion ?_ happended)
      intro n
      rw [saveRefusal]
      split <;> rfl
  have hstopped : ∀ {es g}, Yields (do
      store.secureIdentity (u.stage mint next)
      store.appendVersion (u.stage mint next).user.toVersion) es (.error g) → Stopped es g := by
    intro es g h
    rcases yields_body h with ⟨_, ⟨⟩, hstopped⟩ | ⟨⟨⟩, -⟩
    exact hstopped
  rcases yields_bind.mp h with ⟨g, htransaction, rfl⟩ | ⟨es₁, _, es₂, rfl, htransaction, hend⟩
  · exact (decidesEnd_of_transacted hbody hstopped htransaction.transacted).error
  · obtain ⟨rfl, rfl⟩ := yields_pure.mp (yields_log.mp hend)
    have hdone := decidesEnd_of_transacted hbody hstopped htransaction.transacted
    have hall := hdone.append (.done (u.stage mint next).user)
    rwa [List.append_nil] at hall

/-- How the errors of the requests to a store are classified, whatever a server answers. -/
structure ClassifiesErrors (store : UserStore) (server : Server) : Prop where
  get : ∀ id, Classified (.noRow (currentUserById id) (.notFound id)) currentTypes
    (lookupPlan (currentUserById id)) ((store.get id).run server [])
  getByEmail : ∀ email, Classified (.noRow (currentUserByEmail email) (.emailNotFound email))
    currentTypes (lookupPlan (currentUserByEmail email)) ((store.getByEmail email).run server [])
  getVersion : ∀ id, Classified (.noRow (versionById id) (.versionNotFound id)) currentTypes
    (lookupPlan (versionById id)) ((store.getVersion id).run server [])
  history : ∀ id, Classified (.noRow (versionsOfUser id) (.notFound id)) currentTypes
    (lookupPlan (versionsOfUser id)) ((store.history id).run server [])
  query : ∀ p, Classified .never currentTypes (lookupPlan (listing p).build)
    ((store.query p).run server [])
  count : Classified (.notOneRow countUsers) [.int]
    [.connect, .prepare countUsers.sql false, .query countUsers] (count.run server [])
  save : ∀ mint next u, Classified
    (if u.id = .nil then .never else .noRow (lockUser u.id) (.notFound u.id)) []
    (savePlan u (u.saved mint next)) ((store.save mint next u).run server [])
  delete : ∀ id, Classified (.noRowChanged (markDeleted id) (.notFound id)) []
    [.connect, .prepare (markDeleted id).sql true, .execute (markDeleted id)]
    ((store.delete id).run server [])
  query_ne : ∀ {p e}, e.kind = .notFound → ((store.query p).run server []).2 ≠ .error (.error e)
  count_ne : ∀ {e}, e.kind = .notFound → (UserStore.count.run server []).2 ≠ .error (.error e)

theorem classifies_errors (store : UserStore) (server : Server) :
    ClassifiesErrors store server where
  get _ := classified_rows server decidesEnd_of_firstUser
  getByEmail _ := classified_rows server decidesEnd_of_firstUser
  getVersion _ := classified_rows server decidesEnd_of_firstUser
  history id := classified_history id server
  query p := classified_query p server
  count := classified_count server
  save mint next u := classified_save mint next u server
  delete id := classified_delete id server
  query_ne he h := by
    obtain ⟨x, -, hx⟩ := ((classified_query _ server).notFound_iff he).mp h
    rw [Refusal.error?_never] at hx
    cases hx
  count_ne he h := by
    obtain ⟨x, -, hx⟩ := ((classified_count server).notFound_iff he).mp h
    rw [Refusal.eq_of_notOneRow hx] at he
    cases he

end UserStore

end UserDirectory.Sql
