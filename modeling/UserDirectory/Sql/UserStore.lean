import UserDirectory.Sql.Conversation
import UserDirectory.Sql.UserTables

namespace UserDirectory.Sql

/-- The user in a row of the columns that the statements on users select. -/
def userOfRow? : Row → Option User
  | some (.uuid id) :: some (.uuid versionId) :: some (.bool isLatestVersion) ::
      some (.text firstName) :: some (.text lastName) :: some (.text email) ::
      some (.text phone) :: some (.bool isAdmin) :: some (.text passwordHash) :: _ =>
    some
      { id, versionId, isLatestVersion, firstName, lastName, email, phone, isAdmin, passwordHash }
  | _ => none

structure UserStore where
  logsStatements : Bool := false

namespace UserStore

/-- A conversation of a user store. -/
abbrev Talk := Conversation UserError

def exchange (e : Exchange) : Talk e.Result := .exchange Fault.toUserError e

/-- Logs a statement if statements are logged. -/
def announce (store : UserStore) (sql : String) : Talk Unit :=
  if store.logsStatements then
    .note ⟨.debug, "executing statement", [("sql", sql)]⟩
  else .done ()

/-- Takes a connection and has a statement prepared, which the connection keeps. -/
def makeReady (store : UserStore) (sql : String) : Talk Unit := do
  exchange .connect
  store.announce sql
  exchange (.prepare sql true)

def rows (store : UserStore) (s : Statement) : Talk (List Row) := do
  store.makeReady s.sql
  exchange (.query s)

/-- The user in the first row; without rows there is none. -/
def firstUser (missing : UserError) : List Row → Talk User
  | row :: _ => .read (userOfRow? row)
  | [] => .throw missing

def get (store : UserStore) (id : Uuid) : Talk User := do
  firstUser (.notFound id) (← store.rows (currentUserById id))

def getVersion (store : UserStore) (versionId : Uuid) : Talk User := do
  firstUser (.versionNotFound versionId) (← store.rows (versionById versionId))

def getByEmail (store : UserStore) (email : String) : Talk User := do
  firstUser (.emailNotFound email) (← store.rows (currentUserByEmail email))

def query (store : UserStore) (p : QueryParams) : Talk (List User) := do
  let rows ← store.rows (listing p).build
  .note ⟨.debug, "user query", [("matched", toString rows.length)]⟩
  .read (rows.mapM userOfRow?)

/-- All versions of a user, latest first, also of a deleted one. -/
def history (store : UserStore) (id : Uuid) : Talk (List User) := do
  let rows ← store.rows (versionsOfUser id)
  if rows.isEmpty then .throw (.notFound id) else .read (rows.mapM userOfRow?)

/-- The number of users that were not deleted. -/
def count : Talk Int := do
  let s := countWhere "users" "deleted_at IS NULL"
  exchange .connect
  exchange (.prepare s.sql false)
  let row ← .onlyRow Fault.toUserError (← exchange (.query s))
  .read (numberOfRow? row)

def delete (store : UserStore) (id : Uuid) : Talk Unit := do
  let s := markDeleted id
  store.makeReady s.sql
  let affected ← exchange (.execute s)
  if affected = 0 then .throw (.notFound id)

/-- Makes the identity of a new user, or makes sure that the identity of a known one is there. -/
def secureIdentity (store : UserStore) (staged : Staged) : Talk Unit := do
  let id := staged.user.id
  if staged.isNew then
    store.announce (insertUser id).sql
    exchange (.prepare (insertUser id).sql false)
    let _ ← exchange (.execute (insertUser id))
  else
    store.announce (lockUser id).sql
    exchange (.prepare (lockUser id).sql false)
    let rows ← exchange (.query (lockUser id))
    if rows.isEmpty then .throw (.notFound id)

def appendVersion (store : UserStore) (v : UserVersion) : Talk Unit := do
  let s := insertVersion v
  store.announce s.sql
  exchange (.prepare s.sql false)
  let _ ← exchange (.execute s)

/-- Appends a version of the user; a user without identity gets one first. -/
def save (store : UserStore) (mint : Mint) (next : Nat) (u : User) : Talk User := do
  let staged := u.stage mint next
  let u := staged.user
  exchange .connect
  .transaction Fault.toUserError do
    store.secureIdentity staged
    store.appendVersion u.toVersion
  .note ⟨.debug, "user version appended",
    [("user_id", u.id.render), ("version_id", u.versionId.render)]⟩
  return u

end UserStore

end UserDirectory.Sql
