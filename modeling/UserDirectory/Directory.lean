import UserDirectory.Error
import UserDirectory.Page

/-!
A versioned user store in memory. Every identity keeps all its versions in the order in which they
were saved; a deleted identity keeps them too, but is no longer seen. Identities are ordered by id.
-/

namespace UserDirectory

/-- A user's id, whether the user was deleted, and its versions, earliest first. -/
structure Identity where
  id : Uuid
  isDeleted : Bool := false
  versions : List User := []
  deriving DecidableEq

namespace Identity

/-- The user as seen at present, if there is any version. -/
def latest? (i : Identity) : Option User := i.versions.getLast?

/-- The user as seen at present, unless it was deleted. -/
def current? (i : Identity) : Option User := if i.isDeleted then none else i.latest?

/-- The version with an id, marked as the latest only if it stands last. -/
def version? (i : Identity) (versionId : Uuid) : Option User :=
  match i.versions.findIdx? (·.versionId = versionId) with
  | some n =>
    i.versions[n]?.map fun u => { u with isLatestVersion := n + 1 = i.versions.length }
  | none => none

end Identity

structure CallCounts where
  get : Nat := 0
  query : Nat := 0
  save : Nat := 0
  delete : Nat := 0
  getVersion : Nat := 0
  getByEmail : Nat := 0
  deriving DecidableEq, Repr, Inhabited

structure Directory where
  /-- The identities in ascending order of their ids. -/
  identities : List Identity := []
  /-- How many identifiers have been drawn from the mint. -/
  drawn : Nat := 0
  calls : CallCounts := {}
  deriving Inhabited

namespace Directory

def identity? (d : Directory) (id : Uuid) : Option Identity := d.identities.find? (·.id = id)

/-- The users that are seen at present, in ascending order of their ids. -/
def currentUsers (d : Directory) : List User := d.identities.filterMap Identity.current?

/-- Puts an identity at the place of its id; one with the same id gives way to it. -/
def insert (i : Identity) : List Identity → List Identity
  | [] => [i]
  | j :: rest =>
    if i.id < j.id then i :: j :: rest
    else if i.id = j.id then i :: rest
    else j :: insert i rest

def update (id : Uuid) (f : Identity → Identity) (is : List Identity) : List Identity :=
  is.map fun i => if i.id = id then f i else i

def get (d : Directory) (id : Uuid) : Except UserError User :=
  match (d.identity? id).bind Identity.current? with
  | some u => .ok u
  | none => .error (.notFound id)

/-- How many users a page holds at most. -/
def pageSize : Nat → Nat
  | 0 => 10
  | limit => min limit 1000

/-- The page of the current users that meet the conditions. -/
def query (d : Directory) (p : QueryParams) : List User :=
  ((d.currentUsers.filter p.isMetBy).drop p.pagination.offset).take (pageSize p.pagination.limit)

/-- The version with an id, whether or not its user was deleted. -/
def getVersion (d : Directory) (versionId : Uuid) : Except UserError User :=
  match d.identities.findSome? (·.version? versionId) with
  | some u => .ok u
  | none => .error (.versionNotFound versionId)

def getByEmail (d : Directory) (email : String) : Except UserError User :=
  match d.currentUsers.find? (·.email = email) with
  | some u => .ok u
  | none => .error (.emailNotFound email)

/-- Appends a version of the user; a user without identity gets one first. -/
def save (mint : Mint) (d : Directory) (u : User) : Except UserError User × Directory :=
  let staged := u.stage mint d.drawn
  let u := staged.user
  let identities := if staged.isNew then insert { id := u.id } d.identities else d.identities
  let d := { d with identities, drawn := staged.next }
  match d.identity? u.id with
  | some i =>
    if i.isDeleted then (.error (.notFound u.id), d)
    else
      let append (i : Identity) : Identity := { i with versions := i.versions ++ [u] }
      (.ok u, { d with identities := update u.id append d.identities })
  | none => (.error (.notFound u.id), d)

def delete (d : Directory) (id : Uuid) : Except UserError Unit × Directory :=
  match d.identity? id with
  | some i =>
    if i.isDeleted then (.error (.notFound id), d)
    else
      let mark (i : Identity) : Identity := { i with isDeleted := true }
      (.ok (), { d with identities := update id mark d.identities })
  | none => (.error (.notFound id), d)

end Directory

inductive StoreRequest
  | get (id : Uuid)
  | query (params : QueryParams)
  | save (user : User)
  | delete (id : Uuid)
  | getVersion (versionId : Uuid)
  | getByEmail (email : String)
  deriving DecidableEq

inductive StoreAnswer
  | user (u : User)
  | users (us : List User)
  | done
  deriving DecidableEq

abbrev StoreReply := Except UserError StoreAnswer

namespace Directory

def count (d : Directory) (r : StoreRequest) : Directory :=
  let c := d.calls
  { d with
    calls := match r with
      | .get _ => { c with get := c.get + 1 }
      | .query _ => { c with query := c.query + 1 }
      | .save _ => { c with save := c.save + 1 }
      | .delete _ => { c with delete := c.delete + 1 }
      | .getVersion _ => { c with getVersion := c.getVersion + 1 }
      | .getByEmail _ => { c with getByEmail := c.getByEmail + 1 } }

def serve (mint : Mint) (d : Directory) (r : StoreRequest) : StoreReply × Directory :=
  let d := d.count r
  match r with
  | .get id => ((d.get id).map .user, d)
  | .query p => (.ok (.users (d.query p)), d)
  | .save u => let (reply, d) := d.save mint u; (reply.map .user, d)
  | .delete id => let (reply, d) := d.delete id; (reply.map fun _ => .done, d)
  | .getVersion v => ((d.getVersion v).map .user, d)
  | .getByEmail e => ((d.getByEmail e).map .user, d)

end Directory

end UserDirectory
