import UserDirectory.Command
import UserDirectory.Page

namespace UserDirectory

open UserDirectory.Json

structure ListUsersQuery where
  limit : Option Nat := none
  offset : Option Nat := none
  filter : UserPatch := {}
  deriving DecidableEq, Inhabited

structure GetUserQuery where
  userId : Uuid
  deriving DecidableEq, Inhabited

structure GetUserVersionQuery where
  versionId : Uuid
  deriving DecidableEq, Inhabited

structure GetUserByEmailQuery where
  email : String
  deriving DecidableEq, Inhabited

/-- The filter and page asked for; an empty filter is none. -/
def ListUsersQuery.toParams (q : ListUsersQuery) : QueryParams where
  conditions := if q.filter.isEmpty then none else some q.filter
  pagination := ⟨q.offset.getD 0, q.limit.getD 0⟩

structure ListUsersDraft where
  limit : Option (Option Nat) := none
  offset : Option (Option Nat) := none
  filter : Option UserPatch := none

def ListUsersQuery.decoder : Decoder ListUsersQuery :=
  Record.decoder
    { name := "ListUsersQuery"
      fields :=
        [.of "limit" (.nullable (.unsigned 64)) .accepted (·.limit) fun d x =>
            { d with limit := some x },
          .of "offset" (.nullable (.unsigned 64)) .accepted (·.offset) fun d x =>
            { d with offset := some x },
          .of "filter" UserPatch.decoder .defaulted (·.filter) fun d x =>
            { d with filter := some x }]
      empty := ({} : ListUsersDraft)
      finish := fun d => ⟨d.limit.join, d.offset.join, d.filter.getD {}⟩ }

def GetUserQuery.decoder : Decoder GetUserQuery := identifierRecord "GetUserQuery" "user_id" .mk

def GetUserVersionQuery.decoder : Decoder GetUserVersionQuery :=
  identifierRecord "GetUserVersionQuery" "version_id" .mk

def GetUserByEmailQuery.decoder : Decoder GetUserByEmailQuery :=
  Record.decoder
    { name := "GetUserByEmailQuery"
      fields :=
        [RecordField.of "email" .text .refused (fun d : Option String => d) fun _ s => some s]
      empty := none
      finish := fun d => ⟨d.getD ""⟩ }

end UserDirectory
