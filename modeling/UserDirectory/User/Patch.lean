import UserDirectory.Optional
import UserDirectory.User

namespace UserDirectory

/-- The columns that a patch can list, in their order. -/
inductive Column
  | id
  | versionId
  | firstName
  | lastName
  | email
  | phone
  | isAdmin
  | passwordHash
  deriving DecidableEq, Repr

def Column.name : Column → String
  | .id => "id"
  | .versionId => "version_id"
  | .firstName => "first_name"
  | .lastName => "last_name"
  | .email => "email"
  | .phone => "phone"
  | .isAdmin => "is_admin"
  | .passwordHash => "password_hash"

inductive FieldValue
  | uuid (u : Uuid)
  | text (s : String)
  | bool (b : Bool)
  deriving DecidableEq

def User.column (u : User) : Column → FieldValue
  | .id => .uuid u.id
  | .versionId => .uuid u.versionId
  | .firstName => .text u.firstName
  | .lastName => .text u.lastName
  | .email => .text u.email
  | .phone => .text u.phone
  | .isAdmin => .bool u.isAdmin
  | .passwordHash => .text u.passwordHash

/-- What a user has in the column with a name, if there is one. -/
def User.valueNamed? (u : User) : String → Option FieldValue
  | "id" => some (.uuid u.id)
  | "version_id" => some (.uuid u.versionId)
  | "first_name" => some (.text u.firstName)
  | "last_name" => some (.text u.lastName)
  | "email" => some (.text u.email)
  | "phone" => some (.text u.phone)
  | "is_admin" => some (.bool u.isAdmin)
  | "password_hash" => some (.text u.passwordHash)
  | _ => none

theorem User.valueNamed?_name (u : User) (c : Column) :
    u.valueNamed? c.name = some (u.column c) := by
  cases c <;> rfl

/-- Values for some of the columns of a user. A patch is applied to a user to change it, and it
serves as a filter that a user matches when it has all the listed values. -/
structure UserPatch where
  id : Optional Uuid := .absent
  versionId : Optional Uuid := .absent
  firstName : Optional String := .absent
  lastName : Optional String := .absent
  email : Optional String := .absent
  phone : Optional String := .absent
  isAdmin : Optional Bool := .absent
  passwordHash : Optional String := .absent
  deriving DecidableEq, Inhabited

namespace UserPatch

def value? (p : UserPatch) : Column → Option FieldValue
  | .id => p.id.toOption.map .uuid
  | .versionId => p.versionId.toOption.map .uuid
  | .firstName => p.firstName.toOption.map .text
  | .lastName => p.lastName.toOption.map .text
  | .email => p.email.toOption.map .text
  | .phone => p.phone.toOption.map .text
  | .isAdmin => p.isAdmin.toOption.map .bool
  | .passwordHash => p.passwordHash.toOption.map .text

def toList (p : UserPatch) : List (Column × FieldValue) :=
  [.id, .versionId, .firstName, .lastName, .email, .phone, .isAdmin, .passwordHash].filterMap
    fun c => (p.value? c).map (c, ·)

def isEmpty (p : UserPatch) : Bool := p.toList.isEmpty

def isMatchedBy (p : UserPatch) (u : User) : Bool :=
  p.toList.all fun (c, v) => u.valueNamed? c.name = some v

end UserPatch

/-- The user with the listed values in its own columns; its identifiers stay as they are. -/
def User.apply (u : User) (p : UserPatch) : User :=
  { u with
    firstName := p.firstName.getD u.firstName
    lastName := p.lastName.getD u.lastName
    email := p.email.getD u.email
    phone := p.phone.getD u.phone
    isAdmin := p.isAdmin.getD u.isAdmin
    passwordHash := p.passwordHash.getD u.passwordHash }

end UserDirectory
