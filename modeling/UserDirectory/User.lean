import UserDirectory.Uuid

namespace UserDirectory

/-- A user as seen through one of its versions. -/
structure User where
  id : Uuid := .nil
  versionId : Uuid := .nil
  isLatestVersion : Bool := false
  firstName : String := ""
  lastName : String := ""
  email : String := ""
  phone : String := ""
  isAdmin : Bool := false
  passwordHash : String := ""
  deriving DecidableEq, Inhabited

structure UserVersion where
  id : Uuid
  userId : Uuid
  firstName : String
  lastName : String
  email : String
  phone : String
  isAdmin : Bool
  passwordHash : String
  deriving DecidableEq, Inhabited

/-- A user made ready to be saved. -/
structure Staged where
  user : User
  isNew : Bool
  /-- The place in the mint of the next identifier. -/
  next : Nat

namespace User

/-- Gives the user a fresh version id and, if it has no identity yet, a fresh id after that. -/
def stage (mint : Mint) (next : Nat) (u : User) : Staged :=
  let u := { u with versionId := mint next, isLatestVersion := true }
  if u.id.isNil then ⟨{ u with id := mint (next + 1) }, true, next + 2⟩ else ⟨u, false, next + 1⟩

def toVersion (u : User) : UserVersion where
  id := u.versionId
  userId := u.id
  firstName := u.firstName
  lastName := u.lastName
  email := u.email
  phone := u.phone
  isAdmin := u.isAdmin
  passwordHash := u.passwordHash

end User

end UserDirectory
