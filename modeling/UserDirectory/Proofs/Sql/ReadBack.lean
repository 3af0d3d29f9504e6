import UserDirectory.Proofs.Sql.Projection
import UserDirectory.Proofs.Sql.Saving

namespace UserDirectory.Sql

variable {v : User} {latest : Uuid} {sql : String} {identity row found : List (String × Datum)}

/-- Whether a row has all values of a stored one; it may have columns that were not inserted. -/
def Extends (row stored : List (String × Datum)) : Prop :=
  ∀ column x, stored.lookup column = some x → row.lookup column = some x

/-- Whether the query with a text makes the user `v` of a row of one table and a row of another that
is found for it. -/
structure Reads (sql : String) (outer inner : String × List (String × Datum)) (v : User)
    (q : JoinedProjection) : Prop where
  text : JoinedProjection.of? sql = some q
  outerTable : q.outer.table = outer.1
  innerTable : q.inner.table = inner.1
  length : (rowOf q.outer.items (q.scope outer.2 inner.2)).length = 9
  user : userOfRow? (rowOf q.outer.items (q.scope outer.2 inner.2)) = some v

/-- Whether a query of current users gives `v` back, of its identity and a row that extends the
stored one. The row that is found for an identity is that of its latest version. -/
def ReadsCurrent (sql : String) (v : User) (version : List (String × Datum)) : Prop :=
  ∀ {identity row latest}, identity.lookup "id" = some (.uuid v.id) → Extends row version →
    row.lookup "id" = some (.uuid latest) →
      ∃ q, Reads sql ("users", identity) ("user_versions", row)
        { v with isLatestVersion := decide (v.versionId = latest) } q

/-- Whether a query of versions gives `v` back, of a row that extends the stored one and the row of
the latest version. -/
def ReadsVersion (sql : String) (v : User) (version : List (String × Datum)) : Prop :=
  ∀ {row found latest}, Extends row version → found.lookup "id" = some (.uuid latest) →
    ∃ q, Reads sql ("user_versions", row) ("user_versions", found)
      { v with isLatestVersion := decide (v.versionId = latest) } q

/-- How the user `v` is read of the row that is stored for its version. -/
structure ReadBack (v : User) (version : List (String × Datum)) : Prop where
  byId : ∀ id, ReadsCurrent (currentUserById id).sql v version
  byEmail : ∀ email, ReadsCurrent (currentUserByEmail email).sql v version
  table : ReadsCurrent currentUserTable v version
  listing : ∀ p : QueryParams, ReadsCurrent (listing p).build.sql v version
  versionById : ∀ id, ReadsVersion (versionById id).sql v version
  versionsOfUser : ∀ id, ReadsVersion (versionsOfUser id).sql v version
  /-- Whatever a patch can list stands in the one column of the listed table that has its name. -/
  columns : ∃ q, JoinedProjection.of? currentUserTable = some q ∧
    (q.outer.items.map SelectItem.name?).Nodup ∧
      ∀ {identity row}, identity.lookup "id" = some (.uuid v.id) → Extends row version →
        ∀ (p : UserPatch) (c : Column) (x : FieldValue), (c, x) ∈ p.toList →
          ((q.outer.items.map SelectItem.name?).zip
            (rowOf q.outer.items (q.scope identity row))).lookup (some c.name) =
              some (some (.ofField (v.column c)))

def currentQuery : JoinedProjection :=
  ⟨⟨currentItems, "users", "u"⟩, ⟨latestVersionItems, "user_versions", "v"⟩, "lv"⟩

def versionQuery : JoinedProjection :=
  ⟨⟨versionItems, "user_versions", "v"⟩,
    ⟨[{ expr := .column "l" "id" }], "user_versions", "l"⟩, "latest"⟩

/-! What the texts of the queries say. The constant ones are unfolded to characters, as it takes the
kernel longer to append texts than to read them. -/

theorem read?_currentUsers :
    JoinedProjection.read? (words currentUsers) = some currentQuery := by
  delta currentUsers renderSelectList commaSeparated
  simp only [words, String.toList_append, String.toList_intercalate]
  decide +kernel

theorem read?_versions : JoinedProjection.read? (words versions) = some versionQuery := by
  delta versions renderSelectList commaSeparated
  simp only [words, String.toList_append, String.toList_intercalate]
  decide +kernel

theorem of?_currentUsers : JoinedProjection.of? currentUsers = some currentQuery :=
  JoinedProjection.ofWords?_of_read? read?_currentUsers

theorem of?_versions : JoinedProjection.of? versions = some versionQuery :=
  JoinedProjection.ofWords?_of_read? read?_versions

theorem of?_currentUserTable : JoinedProjection.of? currentUserTable = some currentQuery := by
  have hname : ") AS current_users" = ") AS " ++ "current_users" := rfl
  rw [currentUserTable, hname, ← String.append_assoc]
  exact JoinedProjection.of?_inBrackets read?_currentUsers "current_users"

theorem of?_currentUserById (id : Uuid) :
    JoinedProjection.of? (currentUserById id).sql = some currentQuery :=
  JoinedProjection.of?_append of?_currentUsers (c := ' ') rfl rfl

theorem of?_currentUserByEmail (email : String) :
    JoinedProjection.of? (currentUserByEmail email).sql = some currentQuery :=
  JoinedProjection.of?_append (JoinedProjection.of?_append of?_currentUsers (c := ' ') rfl rfl)
    (c := '(') rfl rfl

theorem of?_listing (p : QueryParams) :
    JoinedProjection.of? (listing p).build.sql = some currentQuery := by
  have horder : (listing p).orderBy = "ORDER BY " ++ "id" := rfl
  have hhead : ∀ {list}, list ≠ [] → (spaced list).toList.head? = some ' ' := by
    intro list hne
    obtain ⟨word, list, rfl⟩ := List.exists_cons_of_ne_nil hne
    rw [spaced, String.append_assoc, String.toList_append]
    rfl
  rw [sql_build horder]
  exact JoinedProjection.of?_append of?_currentUserTable (hhead (by simp [pageWords])) rfl

theorem of?_versionById (id : Uuid) :
    JoinedProjection.of? (versionById id).sql = some versionQuery :=
  JoinedProjection.of?_append of?_versions (c := ' ') rfl rfl

theorem of?_versionsOfUser (id : Uuid) :
    JoinedProjection.of? (versionsOfUser id).sql = some versionQuery :=
  JoinedProjection.of?_append of?_versions (c := ' ') rfl rfl

/-! What they make of rows. -/

def userRow (v : User) : Row :=
  [some (.uuid v.id), some (.uuid v.versionId), some (.bool v.isLatestVersion),
    some (.text v.firstName), some (.text v.lastName), some (.text v.email), some (.text v.phone),
    some (.bool v.isAdmin), some (.text v.passwordHash)]

theorem userOfRow?_userRow (v : User) : userOfRow? (userRow v) = some v := rfl

theorem namedRowOf_latestVersionItems (hrow : Extends row (versionRow v.toVersion)) :
    namedRowOf latestVersionItems [("v", row)] =
      [("id", .uuid v.versionId), ("first_name", .text v.firstName),
        ("last_name", .text v.lastName), ("email", .text v.email), ("phone", .text v.phone),
        ("is_admin", .bool v.isAdmin), ("password_hash", .text v.passwordHash)] := by
  simp [namedRowOf, latestVersionItems, savedItems, savedColumns, SelectItem.name?, Expr.value?,
    hrow "id" _ rfl, hrow "first_name" _ rfl, hrow "last_name" _ rfl, hrow "email" _ rfl,
    hrow "phone" _ rfl, hrow "is_admin" _ rfl, hrow "password_hash" _ rfl, User.toVersion]

theorem rowOf_currentQuery (hid : identity.lookup "id" = some (.uuid v.id))
    (hrow : Extends row (versionRow v.toVersion)) :
    rowOf currentQuery.outer.items (currentQuery.scope identity row) =
      userRow { v with isLatestVersion := true } := by
  have hshown := namedRowOf_latestVersionItems hrow
  have hscope : currentQuery.scope identity row =
      [("u", identity), ("lv", namedRowOf latestVersionItems [("v", row)])] := rfl
  rw [hscope, hshown]
  exact congrArg (· :: (userRow { v with isLatestVersion := true }).tail) hid

theorem rowOf_versionQuery (hrow : Extends row (versionRow v.toVersion))
    (hfound : found.lookup "id" = some (.uuid latest)) :
    rowOf versionQuery.outer.items (versionQuery.scope row found) =
      userRow { v with isLatestVersion := decide (v.versionId = latest) } := by
  have hlatest : namedRowOf versionQuery.inner.items [("l", found)] = [("id", .uuid latest)] := by
    simp [namedRowOf, versionQuery, SelectItem.name?, Expr.value?, hfound]
  have hscope : versionQuery.scope row found =
      [("v", row), ("latest", namedRowOf versionQuery.inner.items [("l", found)])] := rfl
  rw [hscope, hlatest]
  simp [rowOf, versionQuery, versionItems, savedItems, savedColumns, Expr.value?, userRow,
    List.lookup_cons,
    hrow "id" _ rfl, hrow "user_id" _ rfl, hrow "first_name" _ rfl, hrow "last_name" _ rfl,
    hrow "email" _ rfl, hrow "phone" _ rfl, hrow "is_admin" _ rfl, hrow "password_hash" _ rfl,
    User.toVersion]

theorem readsCurrent_of_text (htext : JoinedProjection.of? sql = some currentQuery) :
    ReadsCurrent sql v (versionRow v.toVersion) := by
  intro identity row latest hid hrow hlatest
  have hid' : row.lookup "id" = some (.uuid v.versionId) := hrow "id" _ rfl
  obtain rfl : v.versionId = latest := by
    rw [hid'] at hlatest
    cases hlatest
    rfl
  refine ⟨currentQuery, htext, rfl, rfl, rfl, ?_⟩
  rw [rowOf_currentQuery hid hrow, userOfRow?_userRow, decide_eq_true rfl]

theorem readsVersion_of_text (htext : JoinedProjection.of? sql = some versionQuery) :
    ReadsVersion sql v (versionRow v.toVersion) := by
  intro row found latest hrow hfound
  refine ⟨versionQuery, htext, rfl, rfl, rfl, ?_⟩
  rw [rowOf_versionQuery hrow hfound, userOfRow?_userRow]

theorem readBack_versionRow (v : User) : ReadBack v (versionRow v.toVersion) where
  byId id := readsCurrent_of_text (of?_currentUserById id)
  byEmail email := readsCurrent_of_text (of?_currentUserByEmail email)
  table := readsCurrent_of_text of?_currentUserTable
  listing p := readsCurrent_of_text (of?_listing p)
  versionById id := readsVersion_of_text (of?_versionById id)
  versionsOfUser id := readsVersion_of_text (of?_versionsOfUser id)
  columns := by
    refine ⟨currentQuery, of?_currentUserTable, by decide, ?_⟩
    intro identity row hid hrow p c x _
    rw [rowOf_currentQuery hid hrow]
    cases c <;> rfl

theorem stored?_insertUser (id : Uuid) :
    (insertUser id).stored? = some ("users", [("id", .uuid id)]) :=
  stored?_insertion (i := userInsertion) (by decide) (by decide) rfl

theorem stored?_insertVersion (v : UserVersion) :
    (insertVersion v).stored? = some ("user_versions", versionRow v) :=
  stored?_insertion (i := versionInsertion) (by decide) (by decide) rfl

namespace UserStore

variable {store : UserStore} {mint : Mint} {next : Nat} {u : User} {es : List Exchanged}

theorem committed_of_yields (h : Conversation.Yields (store.save mint next u) es (.ok v))
    (lost : Bool) : (Session.afterAll lost {} es).committed =
      [(if u.id = .nil then [.statement (insertUser v.id)] else []) ++
        [.statement (insertVersion v.toVersion)]] := by
  rcases yields_save h with ⟨f, -, ⟨⟩⟩ | ⟨es', r, rfl, hr, htransacted⟩
  cases htransacted with
  | refused f back => cases hr
  | rolledBack hbody back => cases hr
  | uncommitted hbody f => cases hr
  | committed hbody =>
      rcases yields_body hbody with ⟨_, ⟨⟩, -⟩ | ⟨-, hstored⟩
      rw [User.stage_isNew, User.stage_user] at hstored
      rw [Except.map, User.stage_user] at hr
      exact ((SavesWhole.of_committed_body hstored).ok hr.symm).2.1 lost

theorem mapM_stored? (u v : User) :
    ((if u.id = .nil then [.statement (insertUser v.id)] else []) ++
        [.statement (insertVersion v.toVersion)] : List Change).mapM Change.stored? =
      some ((if u.id = .nil then [("users", [("id", .uuid v.id)])] else []) ++
        [("user_versions", versionRow v.toVersion)]) := by
  have hversion : Change.stored? (.statement (insertVersion v.toVersion)) =
      some ("user_versions", versionRow v.toVersion) := stored?_insertVersion v.toVersion
  have huser : Change.stored? (.statement (insertUser v.id)) =
      some ("users", [("id", .uuid v.id)]) := stored?_insertUser v.id
  by_cases hnew : u.id = .nil
  · simp [hnew, hversion, huser]
  · simp [hnew, hversion]

/-- Whatever user a save stores is read back by every query, and a patch lists it by the columns in
which its values are. -/
theorem saved_rows_read_back {server : Server}
    (h : (store.save mint next u).run server [] = (es, .ok v)) :
    ∃ version, (∀ lost, (Session.afterAll lost {} es).committed.flatten.mapM Change.stored? =
        some ((if u.id = .nil then [("users", [("id", .uuid v.id)])] else []) ++
          [("user_versions", version)])) ∧
      ReadBack v version := by
  obtain ⟨es', hes, hrun⟩ := Conversation.yields_run server [] (store.save mint next u)
  rw [h, List.nil_append] at hes
  rw [h] at hrun
  obtain rfl : es = es' := hes
  refine ⟨versionRow v.toVersion, fun lost => ?_, readBack_versionRow v⟩
  rw [committed_of_yields hrun, List.flatten_singleton, mapM_stored?]

/-- A new user and one that is known already. -/
theorem saved_rows_read_back_of_new_and_known :
    let mint : Mint := fun n => .ofNat (n + 7)
    ∀ u ∈ [{ firstName := "Ada" }, { id := .ofNat 1, email := "bo@x.org", isAdmin := true }],
      ∃ es v,
        (({} : UserStore).save mint 0 u).run (agreeing [[some (.uuid (.ofNat 1))]]) [] =
          (es, .ok v) ∧
        ∃ version, (∀ lost, (Session.afterAll lost {} es).committed.flatten.mapM Change.stored? =
            some ((if u.id = .nil then [("users", [("id", .uuid v.id)])] else []) ++
              [("user_versions", version)])) ∧
          ReadBack v version := by
  intro mint u hu
  have hrun : ∃ es v,
      (({} : UserStore).save mint 0 u).run (agreeing [[some (.uuid (.ofNat 1))]]) [] =
        (es, .ok v) := by
    rcases List.mem_cons.mp hu with rfl | hu
    · exact ⟨_, _, rfl⟩
    · rw [List.mem_singleton.mp hu]
      exact ⟨_, _, rfl⟩
  obtain ⟨es, v, hsaved⟩ := hrun
  exact ⟨es, v, hsaved, saved_rows_read_back hsaved⟩

end UserStore

end UserDirectory.Sql
