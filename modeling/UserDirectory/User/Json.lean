import UserDirectory.Json.Codec
import UserDirectory.Json.Record
import UserDirectory.User.Patch

namespace UserDirectory

open UserDirectory.Json

def presentMembers (members : List (String × Option Value)) : Value :=
  .object (members.filterMap fun (k, v) => v.map (k, ·))

def Uuid.toJson (u : Uuid) : Value := .text u.render

def User.toJson (u : User) : Value :=
  .object
    [("id", u.id.toJson), ("version_id", u.versionId.toJson),
      ("is_latest_version", .bool u.isLatestVersion), ("first_name", .text u.firstName),
      ("last_name", .text u.lastName), ("email", .text u.email), ("phone", .text u.phone),
      ("is_admin", .bool u.isAdmin), ("password_hash", .text u.passwordHash)]

def UserVersion.toJson (v : UserVersion) : Value :=
  .object
    [("id", v.id.toJson), ("user_id", v.userId.toJson), ("first_name", .text v.firstName),
      ("last_name", .text v.lastName), ("email", .text v.email), ("phone", .text v.phone),
      ("is_admin", .bool v.isAdmin), ("password_hash", .text v.passwordHash)]

def UserPatch.toJson (p : UserPatch) : Value :=
  presentMembers
    [("id", p.id.toOption.map Uuid.toJson), ("version_id", p.versionId.toOption.map Uuid.toJson),
      ("first_name", p.firstName.toOption.map .text),
      ("last_name", p.lastName.toOption.map .text), ("email", p.email.toOption.map .text),
      ("phone", p.phone.toOption.map .text), ("is_admin", p.isAdmin.toOption.map .bool),
      ("password_hash", p.passwordHash.toOption.map .text)]

/-- A user or a version whose fields are being read. -/
structure UserDraft where
  id : Option Uuid := none
  versionId : Option Uuid := none
  userId : Option Uuid := none
  isLatestVersion : Option Bool := none
  firstName : Option String := none
  lastName : Option String := none
  email : Option String := none
  phone : Option String := none
  isAdmin : Option Bool := none
  passwordHash : Option String := none

namespace UserDraft

def idField : RecordField UserDraft :=
  .of "id" .uuid .refused (·.id) fun d x => { d with id := some x }

def versionIdField : RecordField UserDraft :=
  .of "version_id" .uuid .refused (·.versionId) fun d x => { d with versionId := some x }

def userIdField : RecordField UserDraft :=
  .of "user_id" .uuid .refused (·.userId) fun d x => { d with userId := some x }

def isLatestVersionField : RecordField UserDraft :=
  .of "is_latest_version" .bool .refused (·.isLatestVersion) fun d x =>
    { d with isLatestVersion := some x }

def firstNameField : RecordField UserDraft :=
  .of "first_name" .text .refused (·.firstName) fun d x => { d with firstName := some x }

def lastNameField : RecordField UserDraft :=
  .of "last_name" .text .refused (·.lastName) fun d x => { d with lastName := some x }

def emailField : RecordField UserDraft :=
  .of "email" .text .refused (·.email) fun d x => { d with email := some x }

def phoneField (absence : Absence) : RecordField UserDraft :=
  .of "phone" .text absence (·.phone) fun d x => { d with phone := some x }

def isAdminField (absence : Absence) : RecordField UserDraft :=
  .of "is_admin" .bool absence (·.isAdmin) fun d x => { d with isAdmin := some x }

def passwordHashField : RecordField UserDraft :=
  .of "password_hash" .text .refused (·.passwordHash) fun d x => { d with passwordHash := some x }

/-- The fields that a user is made of, apart from its identifiers; two of them need not be given
if their absence is accepted. -/
def contentFields (absence : Absence) : List (RecordField UserDraft) :=
  [firstNameField, lastNameField, emailField, phoneField absence, isAdminField absence,
    passwordHashField]

/-- The user with the values read; a field that was not read has the default of a user. -/
def toUser (d : UserDraft) : User where
  id := d.id.getD .nil
  versionId := d.versionId.getD .nil
  isLatestVersion := d.isLatestVersion.getD false
  firstName := d.firstName.getD ""
  lastName := d.lastName.getD ""
  email := d.email.getD ""
  phone := d.phone.getD ""
  isAdmin := d.isAdmin.getD false
  passwordHash := d.passwordHash.getD ""

def toUserVersion (d : UserDraft) : UserVersion :=
  { d.toUser with id := d.userId.getD .nil, versionId := d.id.getD .nil }.toVersion

end UserDraft

open UserDraft

def User.record : Record User UserDraft where
  name := "User"
  fields := idField :: versionIdField :: isLatestVersionField :: contentFields .refused
  empty := {}
  finish := toUser

def User.decoder : Decoder User := User.record.decoder

def UserVersion.record : Record UserVersion UserDraft where
  name := "UserVersion"
  fields := idField :: userIdField :: contentFields .refused
  empty := {}
  finish := toUserVersion

def UserVersion.decoder : Decoder UserVersion := UserVersion.record.decoder

/-- Patches as records that are their own drafts: a field that is not read is left out. -/
def UserPatch.record : Record UserPatch UserPatch where
  name := "UserPatch"
  fields :=
    [.of "id" .uuid .defaulted (·.id.toOption) fun p x => { p with id := .present x },
      .of "version_id" .uuid .defaulted (·.versionId.toOption) fun p x =>
        { p with versionId := .present x },
      .of "first_name" .text .defaulted (·.firstName.toOption) fun p x =>
        { p with firstName := .present x },
      .of "last_name" .text .defaulted (·.lastName.toOption) fun p x =>
        { p with lastName := .present x },
      .of "email" .text .defaulted (·.email.toOption) fun p x => { p with email := .present x },
      .of "phone" .text .defaulted (·.phone.toOption) fun p x => { p with phone := .present x },
      .of "is_admin" .bool .defaulted (·.isAdmin.toOption) fun p x =>
        { p with isAdmin := .present x },
      .of "password_hash" .text .defaulted (·.passwordHash.toOption) fun p x =>
        { p with passwordHash := .present x }]
  empty := {}
  finish := fun p => p

def UserPatch.decoder : Decoder UserPatch := UserPatch.record.decoder

def User.codec : Codec User := ⟨User.toJson, User.decoder⟩

def UserVersion.codec : Codec UserVersion := ⟨UserVersion.toJson, UserVersion.decoder⟩

def UserPatch.codec : Codec UserPatch := ⟨UserPatch.toJson, UserPatch.decoder⟩

end UserDirectory
