import UserDirectory.Cache.Typed
import UserDirectory.Proofs.Json.Record
import UserDirectory.User.Json

namespace UserDirectory

open UserDirectory.Json

theorem Json.Codec.ofEntry_of_ofBytes {α : Type} (c : Codec α) {bs : List UInt8} {a : α}
    (h : c.ofBytes bs = .ok a) : c.ofEntry bs = .ok a := by
  rw [Codec.ofEntry, h]
  rfl

theorem presentMembers_cons {β : Type} (l : Scalar β) (key : String) (o : Option β)
    (ms : List Member) (rest : List (String × Option Value))
    (h : presentMembers rest = .object (ms.map Member.entry)) :
    presentMembers ((key, o.map l.codec.encode) :: rest) =
      .object (((o.map (l.member key)).toList ++ ms).map Member.entry) := by
  simp only [presentMembers, Value.object.injEq] at h ⊢
  cases o with
  | none => simpa using h
  | some b => simpa [Member.entry, Scalar.member] using h

def UserDraft.withContent (d : UserDraft) (u : User) : UserDraft :=
  { d with
    firstName := some u.firstName
    lastName := some u.lastName
    email := some u.email
    phone := some u.phone
    isAdmin := some u.isAdmin
    passwordHash := some u.passwordHash }

namespace User

def contentMembers (u : User) : List Member :=
  [Scalar.text.member "first_name" u.firstName, Scalar.text.member "last_name" u.lastName,
    Scalar.text.member "email" u.email, Scalar.text.member "phone" u.phone,
    Scalar.bool.member "is_admin" u.isAdmin, Scalar.text.member "password_hash" u.passwordHash]

open UserDraft in
theorem fills_content {α : Type} {r : Record α UserDraft} (absence : Absence)
    (hkeys : (r.fields.map (·.key)).Nodup) (hfields : contentFields absence ⊆ r.fields) (u : User)
    (id versionId userId : Option Uuid) (latest : Option Bool) :
    r.Fills { id, versionId, userId, isLatestVersion := latest } u.contentMembers
      (withContent { id, versionId, userId, isLatestVersion := latest } u) := by
  have hfield {f : RecordField UserDraft} (hf : f ∈ contentFields absence) :
      r.field? f.key = some f := Record.field?_of_mem hkeys (hfields hf)
  refine .scalar (hfield (f := firstNameField) (by simp [contentFields])) rfl ?_
  refine .scalar (hfield (f := lastNameField) (by simp [contentFields])) rfl ?_
  refine .scalar (hfield (f := emailField) (by simp [contentFields])) rfl ?_
  refine .scalar (hfield (f := phoneField absence) (by simp [contentFields])) rfl ?_
  refine .scalar (hfield (f := isAdminField absence) (by simp [contentFields])) rfl ?_
  refine .scalar (hfield (f := passwordHashField) (by simp [contentFields])) rfl ?_
  exact .nil _

theorem ofBytes_toBytes (u : User) : codec.ofBytes (codec.toBytes u) = .ok u := by
  have hcontent := u.fills_content (r := record) .refused (by decide)
    (fun f hf => by simp [record, hf]) (some u.id) (some u.versionId) none (some u.isLatestVersion)
  have hfills : record.Fills record.empty
      (Scalar.uuid.member "id" u.id :: Scalar.uuid.member "version_id" u.versionId ::
        Scalar.bool.member "is_latest_version" u.isLatestVersion :: u.contentMembers) _ :=
    .scalar rfl rfl (.scalar rfl rfl (.scalar rfl rfl hcontent))
  exact hfills.decode rfl

theorem ofEntry_toBytes (u : User) : codec.ofEntry (codec.toBytes u) = .ok u :=
  codec.ofEntry_of_ofBytes u.ofBytes_toBytes

end User

theorem UserVersion.ofBytes_toBytes (v : UserVersion) :
    codec.ofBytes (codec.toBytes v) = .ok v := by
  let u : User :=
    { firstName := v.firstName, lastName := v.lastName, email := v.email, phone := v.phone,
      isAdmin := v.isAdmin, passwordHash := v.passwordHash }
  have hcontent := u.fills_content (r := record) .refused (by decide)
    (fun f hf => by simp [record, hf]) (some v.id) none (some v.userId) none
  have hfills : record.Fills record.empty
      (Scalar.uuid.member "id" v.id :: Scalar.uuid.member "user_id" v.userId ::
        u.contentMembers) _ :=
    .scalar rfl rfl (.scalar rfl rfl hcontent)
  exact hfills.decode rfl

theorem Uuid.ofEntry_toBytes (u : Uuid) : Codec.uuid.ofEntry (Codec.uuid.toBytes u) = .ok u :=
  Codec.uuid.ofEntry_of_ofBytes (Scalar.uuid.ofBytes_toBytes u)

namespace UserPatch

def members (p : UserPatch) : List Member :=
  (p.id.toOption.map (Scalar.uuid.member "id")).toList ++
    ((p.versionId.toOption.map (Scalar.uuid.member "version_id")).toList ++
      ((p.firstName.toOption.map (Scalar.text.member "first_name")).toList ++
        ((p.lastName.toOption.map (Scalar.text.member "last_name")).toList ++
          ((p.email.toOption.map (Scalar.text.member "email")).toList ++
            ((p.phone.toOption.map (Scalar.text.member "phone")).toList ++
              ((p.isAdmin.toOption.map (Scalar.bool.member "is_admin")).toList ++
                ((p.passwordHash.toOption.map (Scalar.text.member "password_hash")).toList ++
                  [])))))))

theorem toJson_eq (p : UserPatch) : p.toJson = .object (p.members.map Member.entry) := by
  refine presentMembers_cons .uuid _ _ _ _ ?_
  refine presentMembers_cons .uuid _ _ _ _ ?_
  refine presentMembers_cons .text _ _ _ _ ?_
  refine presentMembers_cons .text _ _ _ _ ?_
  refine presentMembers_cons .text _ _ _ _ ?_
  refine presentMembers_cons .text _ _ _ _ ?_
  refine presentMembers_cons .bool _ _ _ _ ?_
  refine presentMembers_cons .text _ _ _ _ ?_
  rfl

theorem fills_members (p : UserPatch) : record.Fills {} p.members p := by
  obtain ⟨id, versionId, firstName, lastName, email, phone, isAdmin, passwordHash⟩ := p
  rw [members]
  refine Record.Fills.optional (r := record) (fun id => { id }) id rfl rfl (fun _ => rfl) ?_
  refine Record.Fills.optional (r := record)
    (fun versionId => { id, versionId }) versionId rfl rfl (fun _ => rfl) ?_
  refine Record.Fills.optional (r := record)
    (fun firstName => { id, versionId, firstName }) firstName rfl rfl (fun _ => rfl) ?_
  refine Record.Fills.optional (r := record)
    (fun lastName => { id, versionId, firstName, lastName }) lastName rfl rfl (fun _ => rfl) ?_
  refine Record.Fills.optional (r := record)
    (fun email => { id, versionId, firstName, lastName, email }) email rfl rfl (fun _ => rfl) ?_
  refine Record.Fills.optional (r := record)
    (fun phone => { id, versionId, firstName, lastName, email, phone }) phone rfl rfl
    (fun _ => rfl) ?_
  refine Record.Fills.optional (r := record)
    (fun isAdmin => { id, versionId, firstName, lastName, email, phone, isAdmin }) isAdmin rfl rfl
    (fun _ => rfl) ?_
  refine Record.Fills.optional (r := record)
    (fun passwordHash =>
      { id, versionId, firstName, lastName, email, phone, isAdmin, passwordHash })
    passwordHash rfl rfl (fun _ => rfl) ?_
  exact .nil _

theorem ofBytes_toBytes (p : UserPatch) : codec.ofBytes (codec.toBytes p) = .ok p := by
  have hdecode := p.fills_members.decode (by rfl : record.close p = .ok p)
  rw [← p.toJson_eq] at hdecode
  exact hdecode

theorem take_toJson (p : UserPatch) : decoder.take p.toJson = .ok p := by
  rw [p.toJson_eq]
  exact p.fills_members.take rfl

end UserPatch

end UserDirectory
