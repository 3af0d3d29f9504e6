import UserDirectory.User.Json

namespace UserDirectory

open UserDirectory.Json

structure CreateUserCommand where
  firstName : String
  lastName : String
  email : String
  phone : String := ""
  isAdmin : Bool := false
  passwordHash : String
  deriving DecidableEq, Inhabited

/-- The fields that replace those of the user with the given id. -/
structure UpdateUserCommand where
  userId : Uuid := .nil
  firstName : String
  lastName : String
  email : String
  phone : String := ""
  isAdmin : Bool := false
  passwordHash : String
  deriving DecidableEq, Inhabited

structure PatchUserCommand where
  userId : Uuid := .nil
  patch : UserPatch
  deriving DecidableEq, Inhabited

structure DeleteUserCommand where
  userId : Uuid
  deriving DecidableEq, Inhabited

def CreateUserCommand.toUser (c : CreateUserCommand) : User where
  firstName := c.firstName
  lastName := c.lastName
  email := c.email
  phone := c.phone
  isAdmin := c.isAdmin
  passwordHash := c.passwordHash

def UpdateUserCommand.toUser (c : UpdateUserCommand) : User where
  id := c.userId
  firstName := c.firstName
  lastName := c.lastName
  email := c.email
  phone := c.phone
  isAdmin := c.isAdmin
  passwordHash := c.passwordHash

/-- The fields of a user apart from its identifiers, as written in commands. -/
def User.contentJson (u : User) : Value :=
  .object
    [("first_name", .text u.firstName), ("last_name", .text u.lastName), ("email", .text u.email),
      ("phone", .text u.phone), ("is_admin", .bool u.isAdmin),
      ("password_hash", .text u.passwordHash)]

def CreateUserCommand.toJson (c : CreateUserCommand) : Value := c.toUser.contentJson

def UpdateUserCommand.toJson (c : UpdateUserCommand) : Value := c.toUser.contentJson

def PatchUserCommand.toJson (c : PatchUserCommand) : Value := c.patch.toJson

def DeleteUserCommand.toJson (c : DeleteUserCommand) : Value :=
  .object [("user_id", c.userId.toJson)]

def CreateUserCommand.decoder : Decoder CreateUserCommand :=
  Record.decoder
    { name := "CreateUserCommand"
      fields := UserDraft.contentFields .defaulted
      empty := {}
      finish := fun d =>
        let u := d.toUser
        ⟨u.firstName, u.lastName, u.email, u.phone, u.isAdmin, u.passwordHash⟩ }

def UpdateUserCommand.decoder : Decoder UpdateUserCommand :=
  Record.decoder
    { name := "UpdateUserCommand"
      fields := UserDraft.contentFields .defaulted
      empty := {}
      finish := fun d =>
        let u := d.toUser
        ⟨.nil, u.firstName, u.lastName, u.email, u.phone, u.isAdmin, u.passwordHash⟩ }

/-- How many brackets may be open at once inside a patch command. -/
def PatchUserCommand.nesting : Nat := 127

def PatchUserCommand.readMembers : Reader (List (String × Value)) := fun ts =>
  match growFrom nesting [.object [] ""] .firstKey ts with
  | .ok (.object members, rest) => .ok (members, rest)
  | .ok (_, _) => .error .malformed
  | .error f => .error f

def PatchUserCommand.decoder : Decoder PatchUserCommand where
  read
    | .openObject :: ts => do
      let (members, rest) ← readMembers ts
      let patch ← Decoder.lift (UserPatch.decoder.take (.object members))
      return (⟨.nil, patch⟩, rest)
    | ts => .error (unexpected "struct PatchUserCommand" ts)
  take
    | .object members => (UserPatch.decoder.take (.object members)).map (⟨.nil, ·⟩)
    | v => .error (.wrongType v.found "struct PatchUserCommand")

def identifierRecord (name key : String) (finish : Uuid → α) : Decoder α :=
  Record.decoder
    { name
      fields := [RecordField.of key .uuid .refused (fun d : Option Uuid => d) fun _ u => some u]
      empty := none
      finish := fun d => finish (d.getD .nil) }

def DeleteUserCommand.decoder : Decoder DeleteUserCommand :=
  identifierRecord "DeleteUserCommand" "user_id" .mk

def CreateUserCommand.codec : Codec CreateUserCommand :=
  ⟨CreateUserCommand.toJson, CreateUserCommand.decoder⟩

def UpdateUserCommand.codec : Codec UpdateUserCommand :=
  ⟨UpdateUserCommand.toJson, UpdateUserCommand.decoder⟩

def PatchUserCommand.codec : Codec PatchUserCommand :=
  ⟨PatchUserCommand.toJson, PatchUserCommand.decoder⟩

end UserDirectory
