import UserDirectory.Sql.FilterQuery
import UserDirectory.Sql.Select

/-!
The statements of a user store over two tables. A row of `users` is an identity, which is marked
when its user is deleted; a row of `user_versions` is one version, and is never changed. The latest
version of a user is the one created last, of equally late ones the one with the greatest id.
-/

namespace UserDirectory.Sql

/-- The columns of a version that hold what a user was saved with. -/
def savedColumns : List String :=
  ["first_name", "last_name", "email", "phone", "is_admin", "password_hash"]

def savedItems (table : String) : List SelectItem :=
  savedColumns.map fun name => { expr := .column table name }

/-- The columns of a user as seen at present: `u` is its identity, `lv` its latest version. -/
def currentItems : List SelectItem :=
  [{ expr := .column "u" "id" },
    { expr := .column "lv" "id", label := some "version_id" },
    { expr := .constant true, label := some "is_latest_version" }] ++ savedItems "lv"

/-- The columns of the latest version that the current users are read from. -/
def latestVersionItems : List SelectItem := { expr := .column "v" "id" } :: savedItems "v"

/-- The columns of a user as seen through the version `v`: `latest` is the latest version. -/
def versionItems : List SelectItem :=
  [{ expr := .column "v" "user_id", label := some "id" },
    { expr := .column "v" "id", label := some "version_id" },
    { expr := .equal (.column "v" "id") (.column "latest" "id"),
      label := some "is_latest_version" }] ++ savedItems "v"

/-- Reads the users that were not deleted, through their latest versions. -/
def currentUsers : String :=
  "SELECT " ++ renderSelectList currentItems ++ " FROM users u JOIN LATERAL ( SELECT " ++
    renderSelectList latestVersionItems ++ " FROM user_versions v WHERE v.user_id = u.id " ++
    "ORDER BY v.created_at DESC, v.id DESC LIMIT 1 ) lv ON TRUE WHERE u.deleted_at IS NULL"

/-- Reads versions, each marked as the latest one of its user or not. -/
def versions : String :=
  "SELECT " ++ renderSelectList versionItems ++ " FROM user_versions v JOIN LATERAL ( " ++
    "SELECT l.id FROM user_versions l WHERE l.user_id = v.user_id " ++
    "ORDER BY l.created_at DESC, l.id DESC LIMIT 1 ) latest ON TRUE"

/-- The base of a listing. Its columns bear the names by which a patch lists them. -/
def currentUserTable : String := "SELECT * FROM (" ++ currentUsers ++ ") AS current_users"

def currentUserById (id : Uuid) : Statement := ⟨currentUsers ++ " AND u.id = $1", [.uuid id]⟩

/-- Reads the user with the lowest id whose latest version has the email. That some version has it
follows, and lets the server look only at the versions with that email. -/
def currentUserByEmail (email : String) : Statement where
  sql := currentUsers ++ " AND lv.email = $1 AND u.id IN " ++
    "(SELECT user_id FROM user_versions WHERE email = $1) ORDER BY u.id LIMIT 1"
  params := [.text email]

def versionById (versionId : Uuid) : Statement :=
  ⟨versions ++ " WHERE v.id = $1", [.uuid versionId]⟩

def versionsOfUser (id : Uuid) : Statement :=
  ⟨versions ++ " WHERE v.user_id = $1 ORDER BY v.created_at DESC, v.id DESC", [.uuid id]⟩

/-- The listing of the current users that have the values of a patch. -/
def listing (p : QueryParams) : FilterQuery :=
  ({ base := currentUserTable, orderBy := "ORDER BY id" } : FilterQuery)
    |>.filterAll ((p.conditions.getD {}).toList.map fun (c, v) => (c.name, .ofField v))
    |>.paginate (.of (some p.pagination.limit) (some p.pagination.offset))

def countWhere (table condition : String) : Statement :=
  ⟨"SELECT COUNT(*) FROM " ++ table ++ " WHERE " ++ condition, []⟩

def userInsertion : Insertion := ⟨"users", ["id"]⟩

def insertUser (id : Uuid) : Statement := ⟨userInsertion.sql, [.uuid id]⟩

/-- Reads an identity that is not marked as deleted, and keeps it from being marked until the
transaction ends. -/
def lockUser (id : Uuid) : Statement :=
  ⟨"SELECT id FROM users WHERE id = $1 AND deleted_at IS NULL FOR SHARE", [.uuid id]⟩

def versionInsertion : Insertion := ⟨"user_versions", ["id", "user_id"] ++ savedColumns⟩

def insertVersion (v : UserVersion) : Statement where
  sql := versionInsertion.sql
  params :=
    [.uuid v.id, .uuid v.userId, .text v.firstName, .text v.lastName, .text v.email, .text v.phone,
      .bool v.isAdmin, .text v.passwordHash]

/-- Marks an identity as deleted, unless it is so already. -/
def markDeleted (id : Uuid) : Statement :=
  ⟨"UPDATE users SET deleted_at = NOW() WHERE id = $1 AND deleted_at IS NULL", [.uuid id]⟩

end UserDirectory.Sql
