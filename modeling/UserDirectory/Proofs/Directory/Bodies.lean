import UserDirectory.Proofs.Cached.Direct
import UserDirectory.Proofs.Cached.Identities
import UserDirectory.Proofs.Json.Members
import UserDirectory.Proofs.Json.RoundTrip

namespace UserDirectory

open UserDirectory.Json UserDirectory.Text

/-- The keys under which a body can list identifiers, or what only a store decides. -/
def identifierKeys : List String := ["user_id", "id", "version_id", "is_latest_version"]

/-- Whether two texts hold objects that are the same under all keys but those of identifiers. -/
structure SameButIdentifiers (bs bs' : List UInt8) : Prop where
  isObject : (tokens bs).head? = some .openObject
  isObject' : (tokens bs').head? = some .openObject
  same : ∀ key ∉ identifierKeys,
    valuesAt key (membersOf (tokens bs)) = valuesAt key (membersOf (tokens bs'))

inductive Endpoint
  | create
  | update
  | patch

/-- The command of a body that is sent to the path of a user. -/
def Endpoint.command (id : Uuid) (bs : List UInt8) : Endpoint → Except Fault Command
  | .create => (CreateUserCommand.codec.ofBytes bs).map .create
  | .update => (UpdateUserCommand.codec.ofBytes bs).map fun c => .update { c with userId := id }
  | .patch => (PatchUserCommand.codec.ofBytes bs).map fun c => .patch { c with userId := id }

/-- The answer to a command for a directory without a cache, and the directory after it. -/
def Directory.execute (mint : Mint) (d : Directory) (c : Command) : StoreReply × Directory :=
  match c.job with
  | .ok j => d.perform mint j
  | .error e => (.error e, d)

def Directory.others (d : Directory) (id : Uuid) : List Identity :=
  d.identities.filter (·.id ≠ id)

variable {mint : Mint} {d : Directory} {id : Uuid} {u u' : User} {bs bs' : List UInt8}

section Columns

theorem User.eq_of_column (hlatest : u.isLatestVersion = u'.isLatestVersion)
    (h : ∀ c, u.column c = u'.column c) : u = u' := by
  obtain ⟨id, versionId, latest, firstName, lastName, email, phone, isAdmin, passwordHash⟩ := u
  cases hlatest
  cases h .id
  cases h .versionId
  cases h .firstName
  cases h .lastName
  cases h .email
  cases h .phone
  cases h .isAdmin
  cases h .passwordHash
  rfl

variable {absence : Absence}

theorem UserDraft.ofLiterals_contentFields {f : RecordField UserDraft}
    (hf : f ∈ UserDraft.contentFields absence) : f.value.OfLiterals := by
  simp only [contentFields, List.mem_cons, List.not_mem_nil, or_false] at hf
  rcases hf with rfl | rfl | rfl | rfl | rfl | rfl
  all_goals
    first
    | exact Decoder.ofLiterals_text.of
    | exact Decoder.ofLiterals_bool.of

theorem UserDraft.tracks_contentFields {f : RecordField UserDraft}
    (hf : f ∈ UserDraft.contentFields absence) (c : Column) :
    f.Tracks c.name fun draft => draft.toUser.content.column c := by
  simp only [contentFields, List.mem_cons, List.not_mem_nil, or_false] at hf
  rcases hf with rfl | rfl | rfl | rfl | rfl | rfl <;> cases c <;>
    first
    | exact RecordField.tracks_own fun _ _ _ => rfl
    | exact RecordField.tracks_other (by decide) fun _ _ => rfl

theorem UserPatch.tracks_fields {f : RecordField UserPatch} (hf : f ∈ UserPatch.record.fields)
    (u : User) (c : Column) : f.Tracks c.name fun p => (u.apply p).column c := by
  simp only [UserPatch.record, List.mem_cons, List.not_mem_nil, or_false] at hf
  rcases hf with rfl | rfl | rfl | rfl | rfl | rfl | rfl | rfl <;> cases c <;>
    first
    | exact RecordField.tracks_own fun _ _ _ => rfl
    | exact RecordField.tracks_other (by decide) fun _ _ => rfl

end Columns

/-! What the commands make of the drafts that their bodies are read into. -/

section Drafts

variable {draft draft' : UserDraft} {p p' : UserPatch} {ms ms' : List (String × Option Value)}
  {α : Type} {r : Record α UserDraft}

theorem content_eq_of_gathers (hfields : r.fields = UserDraft.contentFields .defaulted)
    (h : r.Gathers r.empty ms draft) (h' : r.Gathers r.empty ms' draft')
    (hsame : ∀ key ∉ identifierKeys, valuesAt key ms = valuesAt key ms') :
    draft.toUser.content = draft'.toUser.content := by
  refine User.eq_of_column rfl fun c => ?_
  have htracks (f : RecordField UserDraft) (hf : f ∈ r.fields) :=
    UserDraft.tracks_contentFields (hfields ▸ hf) c
  cases c with
  | id => rfl
  | versionId => rfl
  | _ => rw [h.get_eq htracks, h'.get_eq htracks, hsame _ (by decide)]

theorem apply_eq_of_gathers (h : UserPatch.record.Gathers {} ms p)
    (h' : UserPatch.record.Gathers {} ms' p')
    (hsame : ∀ key ∉ identifierKeys, valuesAt key ms = valuesAt key ms') (u : User) :
    u.apply p = u.apply p' := by
  refine User.eq_of_column rfl fun c => ?_
  have htracks (f : RecordField UserPatch) (hf : f ∈ UserPatch.record.fields) :=
    UserPatch.tracks_fields hf u c
  cases c with
  | id => rfl
  | versionId => rfl
  | _ => rw [h.get_eq htracks, h'.get_eq htracks, hsame _ (by decide)]

theorem content_eq_of_decode {a a' : α} (hfields : r.fields = UserDraft.contentFields .defaulted)
    (hbodies : SameButIdentifiers bs bs') (h : r.decoder.decode bs = .ok a)
    (h' : r.decoder.decode bs' = .ok a') :
    ∃ draft draft', r.finish draft = a ∧ r.finish draft' = a' ∧
      draft.toUser.content = draft'.toUser.content := by
  have hliterals (f : RecordField UserDraft) (hf : f ∈ r.fields) :=
    UserDraft.ofLiterals_contentFields (hfields ▸ hf)
  obtain ⟨draft, hgathers, hfinish⟩ := Record.gathers_of_decode hliterals hbodies.isObject h
  obtain ⟨draft', hgathers', hfinish'⟩ := Record.gathers_of_decode hliterals hbodies.isObject' h'
  exact ⟨draft, draft', hfinish, hfinish',
    content_eq_of_gathers hfields hgathers hgathers' hbodies.same⟩

end Drafts

theorem CreateUserCommand.toUser_eq {c c' : CreateUserCommand} (hbodies : SameButIdentifiers bs bs')
    (h : codec.ofBytes bs = .ok c) (h' : codec.ofBytes bs' = .ok c') : c.toUser = c'.toUser := by
  obtain ⟨draft, draft', rfl, rfl, hcontent⟩ := content_eq_of_decode
    (r := ⟨"CreateUserCommand", UserDraft.contentFields .defaulted, {}, _⟩) rfl hbodies h h'
  exact hcontent

theorem UpdateUserCommand.toUser_eq {c c' : UpdateUserCommand} (hbodies : SameButIdentifiers bs bs')
    (h : codec.ofBytes bs = .ok c) (h' : codec.ofBytes bs' = .ok c') : c.toUser = c'.toUser := by
  obtain ⟨draft, draft', rfl, rfl, hcontent⟩ := content_eq_of_decode
    (r := ⟨"UpdateUserCommand", UserDraft.contentFields .defaulted, {}, _⟩) rfl hbodies h h'
  exact hcontent

theorem PatchUserCommand.gathers_of_ofBytes {c : PatchUserCommand} (h : codec.ofBytes bs = .ok c) :
    UserPatch.record.Gathers {} (membersOf (tokens bs)) c.patch := by
  obtain ⟨ts, es, hts, hmembers, htake, -⟩ := read_eq_ok (Decoder.read_of_decode h)
  rw [readMembers] at hmembers
  split at hmembers
  · rename_i hgrow
    cases hmembers
    obtain ⟨es, he, hlegible⟩ := membersOf_of_growFrom hgrow
    cases he
    obtain ⟨p, hgathers, rfl⟩ := Record.gathers_of_take htake
    rw [hts, hlegible]
    exact hgathers
  · cases hmembers
  · cases hmembers

theorem Json.Member.membersOf_tokens (ms : List Member) :
    membersOf (tokens (bytes (Value.object (ms.map Member.entry)).render)) =
      legible (ms.map Member.entry) := by
  have hgrow : growFrom 1 [.object [] ""] .firstKey (memberTokens (ms.map Member.entryToken)) =
      .ok (.object (ms.map Member.entry), []) := growFrom_memberTokens ms (.inl rfl)
  obtain ⟨es, he, hmembers⟩ := membersOf_of_growFrom hgrow
  cases he
  rw [Member.tokens_object, hmembers]

theorem PatchUserCommand.tokens_toBytes (c : PatchUserCommand) :
    tokens (codec.toBytes c) =
      .openObject :: memberTokens (c.patch.members.map Member.entryToken) := by
  rw [← Member.tokens_object, ← c.patch.toJson_eq]
  rfl

theorem PatchUserCommand.membersOf_toBytes (c : PatchUserCommand) :
    membersOf (tokens (codec.toBytes c)) = legible (c.patch.members.map Member.entry) := by
  rw [← Member.membersOf_tokens, ← c.patch.toJson_eq]
  rfl

namespace Directory

/-! What handlers leave alone. -/

theorem filter_update {f : Identity → Identity} (hf : ∀ i, (f i).id = i.id) (is : List Identity) :
    (update id f is).filter (·.id ≠ id) = is.filter (·.id ≠ id) := by
  induction is with
  | nil => rfl
  | cons i is ih =>
      have hcons : update id f (i :: is) = (if i.id = id then f i else i) :: update id f is := rfl
      rw [hcons]
      by_cases hi : i.id = id
      · rw [if_pos hi, List.filter_cons_of_neg (by simp [hf, hi]),
          List.filter_cons_of_neg (by simp [hi]), ih]
      · rw [if_neg hi, List.filter_cons_of_pos (by simp [hi]),
          List.filter_cons_of_pos (by simp [hi]), ih]

theorem others_save (mint : Mint) (d : Directory) (hu : u.id ≠ .nil) :
    (d.save mint u).2.others u.id = d.others u.id := by
  have hnil : u.id.isNil = false := by
    rw [← Bool.not_eq_true, Uuid.isNil_iff]
    exact hu
  simp only [save, User.stage, hnil, Bool.false_eq_true, if_false, identity?]
  split
  · split
    · rfl
    · exact filter_update (f := fun i => { i with versions := i.versions ++ [_] }) (fun _ => rfl) _
  · rfl

theorem others_serve_save (mint : Mint) (d : Directory) (hu : u.id ≠ .nil) :
    (d.serve mint (.save u)).2.others u.id = d.others u.id :=
  others_save mint (d.count (.save u)) hu

theorem others_update (mint : Mint) (d : Directory) (c : UpdateUserCommand) :
    (d.execute mint (.update c)).2.others c.userId = d.others c.userId := by
  rw [execute]
  split
  · rename_i j hjob
    obtain ⟨rfl, hid⟩ := UpdateUserCommand.job_eq_ok hjob
    rw [perform_request]
    exact others_serve_save mint d hid
  · rfl

theorem Sound.others_patch (h : d.Sound mint) (hm : mint.Fresh d.drawn) (c : PatchUserCommand) :
    (d.execute mint (.patch c)).2.others c.userId = d.others c.userId := by
  have hexecute : d.execute mint (.patch c) = d.perform mint (.amend c.userId c.patch) := rfl
  rw [hexecute, perform_amend]
  cases hu : d.view c.userId with
  | none => rfl
  | some u =>
      have hid : (u.apply c.patch).id = c.userId := show u.id = _ from h.id_of_view hu
      have hne : c.userId ≠ .nil := h.ne_nil_of_mem_history hm (mem_history_of_view hu)
      have hothers := others_serve_save mint (d.count (.get c.userId)) (hid ▸ hne)
      rw [hid] at hothers
      exact hothers

end Directory

/-- No body redirects a write: bodies that differ in identifiers alone have the same effect, what
they are read into names no user, and only the user named by the path can change. -/
structure StaysOnPath (mint : Mint) (d : Directory) (id : Uuid) : Prop where
  alike : ∀ {bs bs'}, SameButIdentifiers bs bs' → ∀ (e : Endpoint) {c c'},
    e.command id bs = .ok c → e.command id bs' = .ok c' → d.execute mint c = d.execute mint c'
  unnamed_create : ∀ {bs c}, CreateUserCommand.codec.ofBytes bs = .ok c →
    c.toUser.id = .nil ∧ c.toUser.versionId = .nil
  unnamed_update : ∀ {bs c}, UpdateUserCommand.codec.ofBytes bs = .ok c → c.userId = .nil
  unnamed_patch : ∀ {bs c}, PatchUserCommand.codec.ofBytes bs = .ok c → c.userId = .nil
  others : ∀ {bs c} (e : Endpoint), e ≠ .create → e.command id bs = .ok c →
    (d.execute mint c).2.others id = d.others id

theorem Directory.execute_eq (mint : Mint) (d : Directory) (hbodies : SameButIdentifiers bs bs')
    (e : Endpoint) {c c' : Command} (h : e.command id bs = .ok c) (h' : e.command id bs' = .ok c') :
    d.execute mint c = d.execute mint c' := by
  cases e with
  | create =>
      obtain ⟨c, hc, rfl⟩ := ok_of_map h
      obtain ⟨c', hc', rfl⟩ := ok_of_map h'
      have huser := CreateUserCommand.toUser_eq hbodies hc hc'
      simp only [execute, Command.job, CreateUserCommand.job, huser]
  | update =>
      obtain ⟨c, hc, rfl⟩ := ok_of_map h
      obtain ⟨c', hc', rfl⟩ := ok_of_map h'
      have huser := UpdateUserCommand.toUser_eq hbodies hc hc'
      have huser' : ({ c with userId := id } : UpdateUserCommand).toUser =
          ({ c' with userId := id } : UpdateUserCommand).toUser :=
        congrArg (fun u : User => { u with id }) huser
      simp only [execute, Command.job, UpdateUserCommand.job, huser']
  | patch =>
      obtain ⟨c, hc, rfl⟩ := ok_of_map h
      obtain ⟨c', hc', rfl⟩ := ok_of_map h'
      have happly := apply_eq_of_gathers (PatchUserCommand.gathers_of_ofBytes hc)
        (PatchUserCommand.gathers_of_ofBytes hc') hbodies.same
      simp only [execute, Command.job, PatchUserCommand.job, perform_amend, happly]

/-- Whatever bodies are sent, and whatever is in the store, the path alone says who is changed. -/
theorem bodies_stay_on_path (hd : d.Reachable mint) (hm : mint.Fresh d.drawn) (id : Uuid) :
    StaysOnPath mint d id where
  alike := d.execute_eq mint
  unnamed_create _ := ⟨rfl, rfl⟩
  unnamed_update h :=
    congrArg (·.userId) (UpdateUserCommand.unaddressed_of_read (Decoder.read_of_decode h)).symm
  unnamed_patch h :=
    congrArg (·.userId) (PatchUserCommand.unaddressed_of_read (Decoder.read_of_decode h)).symm
  others e he h := by
    cases e with
    | create => exact absurd rfl he
    | update =>
        obtain ⟨c, -, rfl⟩ := ok_of_map h
        exact d.others_update mint { c with userId := id }
    | patch =>
        obtain ⟨c, -, rfl⟩ := ok_of_map h
        exact (hd.sound hm).others_patch hm { c with userId := id }

/-- Two patches of an email, one of which lists an id of somebody else as well. -/
theorem bodies_stay_on_path_of_foreign_id :
    let mint : Mint := fun n => .ofNat (n + 1)
    let u : User :=
      { firstName := "Ada", lastName := "Lovelace", email := "ada@example.com" }
    let d := (({} : Directory).serve mint (.save u)).2
    let p : UserPatch := { email := .present "ada@example.org" }
    let bs := PatchUserCommand.codec.toBytes { patch := p }
    let bs' := PatchUserCommand.codec.toBytes { patch := { p with id := .present (mint 8) } }
    let v : User := { u with id := mint 1, versionId := mint 2, isLatestVersion := true }
    SameButIdentifiers bs bs' ∧ StaysOnPath mint d (mint 1) ∧
      ∀ b ∈ [bs, bs'], ∃ c, Endpoint.patch.command (mint 1) b = .ok c ∧
        (d.execute mint c).1 = .ok (.user { v with email := "ada@example.org" }) := by
  intro mint u d p bs bs' v
  have hpath : StaysOnPath mint d (mint 1) :=
    bodies_stay_on_path (.serve .empty _) (by decide +kernel) (mint 1)
  have hsame : SameButIdentifiers bs bs' := by
    refine ⟨?_, ?_, ?_⟩
    · rw [PatchUserCommand.tokens_toBytes, List.head?_cons]
    · rw [PatchUserCommand.tokens_toBytes, List.head?_cons]
    · intro key hkey
      have hne : "id" ≠ key := by
        rintro rfl
        exact hkey (by decide)
      rw [PatchUserCommand.membersOf_toBytes, PatchUserCommand.membersOf_toBytes]
      exact (valuesAt_cons_of_ne hne _ _).symm
  have hread (p : UserPatch) : Endpoint.patch.command (mint 1)
      (PatchUserCommand.codec.toBytes { patch := p }) = .ok (.patch ⟨mint 1, p⟩) := by
    rw [Endpoint.command, PatchUserCommand.ofBytes_toBytes]
    rfl
  have hexecute : (d.execute mint (.patch ⟨mint 1, p⟩)).1 =
      .ok (.user { v with email := "ada@example.org" }) := by
    have hjob : d.execute mint (.patch ⟨mint 1, p⟩) = d.perform mint (.amend (mint 1) p) := rfl
    rw [hjob, Directory.perform_amend]
    decide +kernel
  refine ⟨hsame, hpath, ?_⟩
  simp only [List.mem_cons, List.not_mem_nil, or_false, forall_eq_or_imp, forall_eq]
  refine ⟨⟨_, hread _, hexecute⟩, _, hread _, ?_⟩
  rw [← hpath.alike hsame .patch (hread _) (hread _)]
  exact hexecute

end UserDirectory
