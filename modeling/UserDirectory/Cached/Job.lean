import UserDirectory.Cached.Request
import UserDirectory.Query

namespace UserDirectory

/-- What commands and queries ask of a store. All but a patch are single requests; a patch reads the
user, changes it and saves it. -/
inductive Job
  | request (r : StoreRequest)
  | amend (id : Uuid) (patch : UserPatch)
  deriving DecidableEq

def CreateUserCommand.job (c : CreateUserCommand) : Job := .request (.save c.toUser)

def UpdateUserCommand.job (c : UpdateUserCommand) : Except UserError Job :=
  if c.userId.isNil then .error (.badRequest "user id is required")
  else .ok (.request (.save c.toUser))

def PatchUserCommand.job (c : PatchUserCommand) : Job := .amend c.userId c.patch

def DeleteUserCommand.job (c : DeleteUserCommand) : Job := .request (.delete c.userId)

def GetUserQuery.job (q : GetUserQuery) : Job := .request (.get q.userId)

def ListUsersQuery.job (q : ListUsersQuery) : Job := .request (.query q.toParams)

def GetUserVersionQuery.job (q : GetUserVersionQuery) : Job := .request (.getVersion q.versionId)

def GetUserByEmailQuery.job (q : GetUserByEmailQuery) : Job := .request (.getByEmail q.email)

end UserDirectory
