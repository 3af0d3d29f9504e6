import Mathlib.Data.List.Basic
import UserDirectory.Proofs.Sql.Transcript
import UserDirectory.Sql.UserStore

namespace UserDirectory

/-- The user as which a user is saved: it keeps its id if it has one. -/
def User.saved (mint : Mint) (next : Nat) (u : User) : User :=
  { u with
    id := if u.id = .nil then mint (next + 1) else u.id
    versionId := mint next
    isLatestVersion := true }

theorem User.stage_user (mint : Mint) (next : Nat) (u : User) :
    (u.stage mint next).user = u.saved mint next := by
  by_cases h : u.id = .nil
  · simp [stage, saved, h, Uuid.isNil_iff.mpr]
  · have hnil : ¬ u.id.isNil = true := fun hnil => h (Uuid.isNil_iff.mp hnil)
    simp [stage, saved, h, hnil]

theorem User.stage_isNew (mint : Mint) (next : Nat) (u : User) :
    (u.stage mint next).isNew = decide (u.id = .nil) := by
  by_cases h : u.id = .nil
  · simp [stage, h, Uuid.isNil_iff.mpr]
  · have hnil : ¬ u.id.isNil = true := fun hnil => h (Uuid.isNil_iff.mp hnil)
    simp [stage, h, hnil]

namespace Sql.UserStore

open Conversation

variable {store : UserStore} {α : Type} {es : List Exchanged}

theorem yields_announce_bind {sql : String} {f : Unit → Talk α} {r : Except (Failure UserError) α} :
    Yields (store.announce sql >>= f) es r ↔ Yields (f ()) es r := by
  rw [announce]
  split
  · exact yields_log
  · exact Iff.rfl

/-- What has been exchanged when the identity and the version of a user are in a transaction. -/
structure Stored (isNew : Bool) (v : User) (es : List Exchanged) : Prop where
  plain : ∀ x ∈ es, x.exchange.IsPlain
  succeeds : ∀ x ∈ es, x.Succeeds
  statements : es.filterMap Exchanged.statement? =
    [if isNew then insertUser v.id else lockUser v.id, insertVersion v.toVersion]
  changes : es.filterMap Exchanged.change? =
    (if isNew then [.statement (insertUser v.id)] else []) ++
      [.statement (insertVersion v.toVersion)]
  locked : isNew = false → ∃ rows, rows ≠ [] ∧ ⟨.query (lockUser v.id), .ok rows⟩ ∈ es

/-- What has been exchanged when something has failed inside a transaction. -/
structure Stopped (es : List Exchanged) (f : Failure UserError) : Prop where
  plain : ∀ x ∈ es, x.exchange.IsPlain
  error : ∃ e, f = .error e

theorem yields_sent_bind {sql : String} {e : Exchange} {f : e.Result → Talk α}
    {r : Except (Failure UserError) α} (he : e.IsPlain)
    (h : Yields (do
      store.announce sql
      exchange (.prepare sql false)
      exchange e >>= f) es r) :
    (∃ g, r = .error g ∧ Stopped es g) ∨
      ∃ result es', es = ⟨.prepare sql false, .ok ()⟩ :: ⟨e, .ok result⟩ :: es' ∧
        Yields (f result) es' r := by
  rw [yields_announce_bind] at h
  rcases yields_exchange_bind.mp h with ⟨g, rfl, rfl⟩ | ⟨_, _, rfl, hsent⟩
  · exact Or.inl ⟨_, rfl, by simp, _, rfl⟩
  · rcases yields_exchange_bind.mp hsent with ⟨g, rfl, rfl⟩ | ⟨result, es', rfl, hrest⟩
    · exact Or.inl ⟨_, rfl, by simp [he], _, rfl⟩
    · exact Or.inr ⟨result, es', rfl, hrest⟩

theorem yields_appendVersion {v : UserVersion} {r : Except (Failure UserError) Unit}
    (h : Yields (store.appendVersion v) es r) :
    (∃ f, r = .error f ∧ Stopped es f) ∨
      ∃ n, r = .ok () ∧
        es = [⟨.prepare (insertVersion v).sql false, .ok ()⟩,
          ⟨.execute (insertVersion v), .ok n⟩] := by
  rcases yields_sent_bind (e := .execute (insertVersion v)) trivial h with
    hstopped | ⟨n, _, rfl, hend⟩
  · exact Or.inl hstopped
  · obtain ⟨rfl, rfl⟩ := yields_pure.mp hend
    exact Or.inr ⟨n, rfl, rfl⟩

theorem yields_secureIdentity {staged : Staged} {r : Except (Failure UserError) Unit}
    (h : Yields (store.secureIdentity staged) es r) :
    (∃ f, r = .error f ∧ Stopped es f) ∨
      (staged.isNew = true ∧ ∃ n, r = .ok () ∧
        es = [⟨.prepare (insertUser staged.user.id).sql false, .ok ()⟩,
          ⟨.execute (insertUser staged.user.id), .ok n⟩]) ∨
      (staged.isNew = false ∧ ∃ rows, rows ≠ [] ∧ r = .ok () ∧
        es = [⟨.prepare (lockUser staged.user.id).sql false, .ok ()⟩,
          ⟨.query (lockUser staged.user.id), .ok rows⟩]) := by
  cases hnew : staged.isNew with
  | true =>
      simp only [secureIdentity, hnew, if_true] at h
      rcases yields_sent_bind (e := .execute (insertUser staged.user.id)) trivial h with
        hstopped | ⟨n, _, rfl, hend⟩
      · exact Or.inl hstopped
      · obtain ⟨rfl, rfl⟩ := yields_pure.mp hend
        exact Or.inr (Or.inl ⟨rfl, n, rfl, rfl⟩)
  | false =>
      simp only [secureIdentity, hnew, Bool.false_eq_true, if_false] at h
      rcases yields_sent_bind (e := .query (lockUser staged.user.id)) trivial h with
        hstopped | ⟨rows, _, rfl, hend⟩
      · exact Or.inl hstopped
      · split at hend
        · obtain ⟨rfl, rfl⟩ := yields_throw.mp hend
          exact Or.inl ⟨_, rfl, by simp, _, rfl⟩
        · rename_i hrows
          obtain ⟨rfl, rfl⟩ := yields_pure.mp hend
          exact Or.inr (Or.inr ⟨rfl, rows, by simpa using hrows, rfl, rfl⟩)

theorem yields_body {staged : Staged} {r : Except (Failure UserError) Unit}
    (h : Yields (do
      store.secureIdentity staged
      store.appendVersion staged.user.toVersion) es r) :
    (∃ f, r = .error f ∧ Stopped es f) ∨
      r = .ok () ∧ Stored staged.isNew staged.user es := by
  rcases yields_bind.mp h with ⟨g, hsecured, rfl⟩ | ⟨es₁, _, es₂, rfl, hsecured, happended⟩
  · rcases yields_secureIdentity hsecured with ⟨_, ⟨⟩, hstopped⟩ | ⟨-, _, ⟨⟩, -⟩ | ⟨-, _, -, ⟨⟩, -⟩
    exact Or.inl ⟨g, rfl, hstopped⟩
  · have hplain : ∀ x ∈ es₁, x.exchange.IsPlain := by
      rcases yields_secureIdentity hsecured with ⟨_, ⟨⟩, -⟩ | ⟨-, _, -, rfl⟩ | ⟨-, _, -, -, rfl⟩
      · simp
      · simp
    rcases yields_appendVersion happended with ⟨f, rfl, hstopped⟩ | ⟨n, rfl, rfl⟩
    · refine Or.inl ⟨f, rfl, ?_, hstopped.error⟩
      intro x hx
      exact (List.mem_append.mp hx).elim (hplain x) (hstopped.plain x)
    · refine Or.inr ⟨rfl, ?_⟩
      rcases yields_secureIdentity hsecured with
        ⟨_, ⟨⟩, -⟩ | ⟨hnew, _, -, rfl⟩ | ⟨hnew, rows, hrows, -, rfl⟩
      · refine ⟨by simp, by simp [Exchanged.Succeeds], ?_, ?_, by simp [hnew]⟩
        · rw [hnew]
          rfl
        · rw [hnew]
          rfl
      · refine ⟨by simp, by simp [Exchanged.Succeeds], ?_, ?_, fun _ => ⟨rows, hrows, by simp⟩⟩
        · rw [hnew]
          rfl
        · rw [hnew]
          rfl

theorem yields_save {mint : Mint} {next : Nat} {u : User} {r : Except (Failure UserError) User}
    (h : Yields (store.save mint next u) es r) :
    (∃ f, es = [⟨.connect, .error f⟩] ∧ r = .error (.error f.toUserError)) ∨
      ∃ es' r', es = ⟨.connect, .ok ()⟩ :: es' ∧ r = r'.map (fun _ => (u.stage mint next).user) ∧
        Transacted Fault.toUserError (do
          store.secureIdentity (u.stage mint next)
          store.appendVersion (u.stage mint next).user.toVersion) es' r' := by
  rcases yields_exchange_bind.mp h with hrefused | ⟨_, _, rfl, hrest⟩
  · exact Or.inl hrefused
  · refine Or.inr ?_
    rcases yields_bind.mp hrest with ⟨g, htransaction, rfl⟩ | ⟨es₁, _, _, rfl, htransaction, hend⟩
    · exact ⟨_, _, rfl, rfl, htransaction.transacted⟩
    · obtain ⟨rfl, rfl⟩ := yields_pure.mp (yields_log.mp hend)
      exact ⟨es₁, _, by simp, rfl, htransaction.transacted⟩

/-- How a save of the user `u` goes, if it has exchanged `es` and ended in `r`. -/
structure SavesWhole (mint : Mint) (next : Nat) (u : User) (es : List Exchanged)
    (r : Except (Failure UserError) User) : Prop where
  /-- The end of a transaction is asked for last, and only when everything is in it. -/
  commit : ∀ {before answer after}, es = before ++ ⟨.commit, answer⟩ :: after →
    after = [] ∧ ∃ body, before = ⟨.connect, .ok ()⟩ :: ⟨.begin, .ok ()⟩ :: body ∧
      Stored (u.id = .nil) (u.saved mint next) body
  ok_iff : (∃ v, r = .ok v) ↔ ⟨.commit, .ok ()⟩ ∈ es
  ok : ∀ {v}, r = .ok v → v = u.saved mint next ∧
    (∀ lost, (Session.afterAll lost {} es).committed =
      [(if u.id = .nil then [.statement (insertUser v.id)] else []) ++
        [.statement (insertVersion v.toVersion)]]) ∧
    versionInsertion.columns.zip (insertVersion v.toVersion).params =
      [("id", .uuid v.versionId), ("user_id", .uuid v.id), ("first_name", .text v.firstName),
        ("last_name", .text v.lastName), ("email", .text v.email), ("phone", .text v.phone),
        ("is_admin", .bool v.isAdmin), ("password_hash", .text v.passwordHash)]
  error : ⟨.commit, .ok ()⟩ ∉ es → ∃ e, r = .error (.error e)
  rolledBack : ⟨.begin, .ok ()⟩ ∈ es → (∀ answer, ⟨.commit, answer⟩ ∉ es) →
    (∃ answer, es.getLast? = some ⟨.rollback, answer⟩) ∧
      ∀ lost, (Session.afterAll lost {} es).committed = []

namespace SavesWhole

variable {mint : Mint} {next : Nat} {u : User} {r : Except (Failure UserError) User}

theorem of_uncommitted {e : UserError} (hes : ∀ x ∈ es, x.exchange ≠ .commit)
    (hback : ⟨.begin, .ok ()⟩ ∈ es →
      (∃ answer, es.getLast? = some ⟨.rollback, answer⟩) ∧
        ∀ lost, (Session.afterAll lost {} es).committed = []) :
    SavesWhole mint next u es (.error (.error e)) where
  commit := by
    rintro before answer after rfl
    exact (hes ⟨.commit, answer⟩ (by simp) rfl).elim
  ok_iff := by
    constructor
    · rintro ⟨_, ⟨⟩⟩
    · intro h
      exact (hes _ h rfl).elim
  ok := by rintro _ ⟨⟩
  error _ := ⟨e, rfl⟩
  rolledBack h _ := hback h

theorem split_commit {body before after : List Exchanged} {a answer : Except Fault Unit}
    (hbody : ∀ x ∈ body, x.exchange.IsPlain)
    (h : ⟨.connect, .ok ()⟩ :: ⟨.begin, .ok ()⟩ :: (body ++ [⟨.commit, a⟩]) =
      before ++ ⟨.commit, answer⟩ :: after) :
    before = ⟨.connect, .ok ()⟩ :: ⟨.begin, .ok ()⟩ :: body ∧ answer = a ∧ after = [] := by
  have hno : (⟨.commit, answer⟩ : Exchanged) ∉ ⟨.connect, .ok ()⟩ :: ⟨.begin, .ok ()⟩ :: body := by
    intro hmem
    simp only [List.mem_cons, Exchanged.mk.injEq, reduceCtorEq, false_and, false_or] at hmem
    exact hbody _ hmem
  have hlast : (⟨.commit, answer⟩ : Exchanged) ∉ [] := by simp
  obtain ⟨rfl, hcommit, rfl⟩ := (List.append_cons_inj_of_notMem hno hlast).mp h
  cases hcommit
  exact ⟨rfl, rfl, rfl⟩

theorem of_uncommitted_body {body : List Exchanged} (f : Fault)
    (h : Stored (u.id = .nil) (u.saved mint next) body) :
    SavesWhole mint next u
      (⟨.connect, .ok ()⟩ :: ⟨.begin, .ok ()⟩ :: (body ++ [⟨.commit, .error f⟩]))
      (.error (.error f.toUserError)) where
  commit hsplit := by
    obtain ⟨rfl, -, rfl⟩ := split_commit h.plain hsplit
    exact ⟨rfl, body, rfl, h⟩
  ok_iff := by
    constructor
    · rintro ⟨_, ⟨⟩⟩
    · intro hcommit
      obtain ⟨before, after, hsplit⟩ := List.append_of_mem hcommit
      obtain ⟨-, ⟨⟩, -⟩ := split_commit h.plain hsplit
  ok := by rintro _ ⟨⟩
  error _ := ⟨_, rfl⟩
  rolledBack _ hno := (hno (.error f) (by simp)).elim

theorem of_committed_body {body : List Exchanged}
    (h : Stored (u.id = .nil) (u.saved mint next) body) :
    SavesWhole mint next u
      (⟨.connect, .ok ()⟩ :: ⟨.begin, .ok ()⟩ :: (body ++ [⟨.commit, .ok ()⟩]))
      (.ok (u.saved mint next)) where
  commit hsplit := by
    obtain ⟨rfl, -, rfl⟩ := split_commit h.plain hsplit
    exact ⟨rfl, body, rfl, h⟩
  ok_iff := by simp
  ok := by
    rintro _ ⟨⟩
    refine ⟨rfl, fun lost => ?_, rfl⟩
    have hopen : Session.afterAll lost {} (⟨.connect, .ok ()⟩ :: ⟨.begin, .ok ()⟩ :: body) =
        ⟨.inside (body.filterMap Exchanged.change?), []⟩ :=
      Session.afterAll_of_succeeds (fun x hx => ⟨h.plain x hx, h.succeeds x hx⟩) [] []
    rw [← List.cons_append, ← List.cons_append, Session.afterAll_append, hopen, h.changes]
    simp [Session.afterAll, Session.after, Session.commit]
  error hno := (hno (by simp)).elim
  rolledBack _ hno := (hno (.ok ()) (by simp)).elim

theorem of_rolledBack {es : List Exchanged} {e : UserError} (back : Except Fault Unit)
    (hes : ∀ x ∈ es, x.exchange.IsPlain) :
    SavesWhole mint next u
      (⟨.connect, .ok ()⟩ :: ⟨.begin, .ok ()⟩ :: (es ++ [⟨.rollback, back⟩]))
      (.error (.error e)) := by
  apply of_uncommitted
  · intro x hx hcommit
    simp only [List.mem_cons, List.mem_append, List.not_mem_nil, or_false] at hx
    rcases hx with rfl | rfl | hx | rfl
    · cases hcommit
    · cases hcommit
    · exact (hcommit ▸ hes x hx : Exchange.IsPlain .commit)
    · cases hcommit
  · intro _
    refine ⟨⟨back, by rw [← List.cons_append, ← List.cons_append, List.getLast?_concat]⟩,
      fun lost => ?_⟩
    have hbegun : (Session.afterAll lost ⟨.inside [], []⟩ es).committed = [] :=
      Session.committed_afterAll_of_plain (by simp) hes
    show (Session.afterAll lost ⟨.inside [], []⟩ (es ++ [⟨.rollback, back⟩])).committed = []
    rw [Session.afterAll_append]
    exact hbegun

end SavesWhole

/-- However the server answers, a user is saved whole or not at all. -/
theorem saves_whole (store : UserStore) (mint : Mint) (next : Nat) (u : User) (server : Server) :
    SavesWhole mint next u ((store.save mint next u).run server []).1
      ((store.save mint next u).run server []).2 := by
  obtain ⟨es, hes, hrun⟩ := yields_run server [] (store.save mint next u)
  rw [hes, List.nil_append]
  generalize ((store.save mint next u).run server []).2 = r at hrun
  rcases yields_save hrun with ⟨f, rfl, rfl⟩ | ⟨es', r', rfl, rfl, htransacted⟩
  · exact SavesWhole.of_uncommitted (by simp) (by simp)
  · cases htransacted with
    | refused f back =>
        exact SavesWhole.of_uncommitted (by simp) (by simp)
    | rolledBack hbody back =>
        rcases yields_body hbody with ⟨_, ⟨⟩, hstopped⟩ | ⟨⟨⟩, -⟩
        obtain ⟨e, rfl⟩ := hstopped.error
        exact SavesWhole.of_rolledBack back hstopped.plain
    | uncommitted hbody f =>
        rcases yields_body hbody with ⟨_, ⟨⟩, -⟩ | ⟨-, hstored⟩
        rw [User.stage_isNew, User.stage_user] at hstored
        exact SavesWhole.of_uncommitted_body f hstored
    | committed hbody =>
        rcases yields_body hbody with ⟨_, ⟨⟩, -⟩ | ⟨-, hstored⟩
        rw [User.stage_isNew, User.stage_user] at hstored
        rw [Except.map, User.stage_user]
        exact SavesWhole.of_committed_body hstored

/-- A server that does what it is asked and finds the given rows. -/
def agreeing (rows : List Row) : Server := fun _ e =>
  match e with
  | .query _ => .ok rows
  | .execute _ => .ok 1
  | .connect => .ok ()
  | .prepare _ _ => .ok ()
  | .batch _ => .ok ()
  | .begin => .ok ()
  | .commit => .ok ()
  | .rollback => .ok ()

/-- A new user and one that is known already; both are committed. -/
theorem saves_whole_of_new_and_known :
    let mint : Mint := fun n => .ofNat (n + 7)
    ∀ u ∈ [{ firstName := "Ada" }, { id := .ofNat 1, email := "bo@x.org", isAdmin := true }],
      ∃ es v,
        (({} : UserStore).save mint 0 u).run (agreeing [[some (.uuid (.ofNat 1))]]) [] =
          (es, .ok v) ∧
        es.getLast? = some ⟨.commit, .ok ()⟩ ∧ SavesWhole mint 0 u es (.ok v) := by
  intro mint u hu
  have hrun : ∃ es v,
      (({} : UserStore).save mint 0 u).run (agreeing [[some (.uuid (.ofNat 1))]]) [] =
        (es, .ok v) ∧ es.getLast? = some ⟨.commit, .ok ()⟩ := by
    rcases List.mem_cons.mp hu with rfl | hu
    · exact ⟨_, _, rfl, rfl⟩
    · rw [List.mem_singleton.mp hu]
      exact ⟨_, _, rfl, rfl⟩
  obtain ⟨es, v, hsaved, hcommit⟩ := hrun
  have hwhole := saves_whole {} mint 0 u (agreeing [[some (.uuid (.ofNat 1))]])
  rw [hsaved] at hwhole
  exact ⟨es, v, hsaved, hcommit, hwhole⟩

end Sql.UserStore

end UserDirectory
