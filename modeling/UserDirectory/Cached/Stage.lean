import UserDirectory.Cache.Key
import UserDirectory.Cache.Typed
import UserDirectory.Cached.Fence
import UserDirectory.Cached.Job
import UserDirectory.Log
import UserDirectory.User.Json

/-!
The cached store as a machine. A task that serves a job is always at a stage, and at each stage it
waits for one thing: an answer of the cache, an answer of the store, or the fence of a user. `turn`
says what a task does when the answer comes, up to its next stage.

Reads look into the cache first and fall back to the store; what they found there they write back
to the cache. Saves and deletions go to the store and then drop what the cache holds of the user.
A failure of the cache counts as a miss, and errors of the store are returned as they are.
-/

namespace UserDirectory

open UserDirectory.Json

/-- What a read of a user by id is for. -/
inductive Purpose
  | answer
  /-- To see whether the user that the index names for an email still has it; the clock had the
  value `started` when the index was read. -/
  | confirm (email : String) (started : Nat)
  | amend (patch : UserPatch)
  deriving DecidableEq

/-- What follows when an index entry has been dropped. -/
inductive Afterwards
  | lookUp (email : String) (started : Nat)
  /-- The index entries of more emails are dropped, and the answer is returned. -/
  | answer (emails : List String) (answer : StoreAnswer)
  deriving DecidableEq

/-- Where a task stands. The number `started` is what the clock of the fences showed before the
store was read. A task that writes a user back goes on with the purpose of the read that found it;
without one it ends there. -/
inductive Stage
  | readEntry (id : Uuid) (started : Nat) (purpose : Purpose)
  | fetch (id : Uuid) (started : Nat) (purpose : Purpose)
  | readIndex (email : String) (started : Nat)
  | fetchByEmail (email : String) (started : Nat)
  | awaitWrite (user : User) (started : Nat) (purpose : Option Purpose)
  | writeEntry (user : User) (purpose : Option Purpose)
  | writeIndex (user : User) (purpose : Option Purpose)
  | readReplaced (user : User)
  | save (user : User) (replaced : Option String)
  | readDoomed (id : Uuid)
  | delete (id : Uuid) (email : Option String)
  | awaitDrop (id : Uuid) (emails : List String) (answer : StoreAnswer)
  | dropEntry (id : Uuid) (emails : List String) (answer : StoreAnswer)
  | dropIndex (email : String) (afterwards : Afterwards)
  | query (params : QueryParams)
  | getVersion (versionId : Uuid)
  deriving DecidableEq

/-- What a task does next: it goes on at a stage, or it ends. -/
inductive Next
  | stage (s : Stage)
  | finished (reply : StoreReply)

/-- What happens between one wait of a task and the next. -/
structure Turn where
  next : Next
  fences : Fences
  logs : List LogEvent := []
  /-- A write-back that goes on as a task of its own. -/
  spawned : Option Stage := none
  /-- The task that got the fence which this task gave up. -/
  woken : Option TaskId := none

/-- The cache settings of a store; without them its requests go to the store directly. -/
abbrev Wiring := Option UserCacheConfig

namespace Wiring

/-- How long entries are kept, in milliseconds. -/
def lifetime (w : Wiring) : Nat := (w.getD {}).ttlSecs * 1000

def isInline (w : Wiring) : Bool := (w.getD {}).populateMode = .inline

end Wiring

namespace Stage

def request (w : Wiring) : Stage → Request
  | .readEntry id _ _ => .cache (.get (CacheKey.user id))
  | .fetch id _ _ => .store (.get id)
  | .readIndex email _ => .cache (.get (CacheKey.email email))
  | .fetchByEmail email _ => .store (.getByEmail email)
  | .awaitWrite user _ _ => .fence user.id
  | .writeEntry user _ =>
    .cache (.set (CacheKey.user user.id) (User.codec.toBytes user) w.lifetime)
  | .writeIndex user _ =>
    .cache (.set (CacheKey.email user.email) (Codec.uuid.toBytes user.id) w.lifetime)
  | .readReplaced user => .cache (.get (CacheKey.user user.id))
  | .save user _ => .store (.save user)
  | .readDoomed id => .cache (.get (CacheKey.user id))
  | .delete id _ => .store (.delete id)
  | .awaitDrop id _ _ => .fence id
  | .dropEntry id _ _ => .cache (.remove (CacheKey.user id))
  | .dropIndex email _ => .cache (.remove (CacheKey.email email))
  | .query params => .store (.query params)
  | .getVersion versionId => .store (.getVersion versionId)

/-- The user whose fence the task holds or waits for. -/
def fenced? : Stage → Option Uuid
  | .awaitWrite user _ _ | .writeEntry user _ | .writeIndex user _ => some user.id
  | .awaitDrop id _ _ | .dropEntry id _ _ => some id
  | _ => none

/-- Whether the time allowed for the stage started with the stage before it. -/
def isContinued : Stage → Bool
  | .writeIndex _ _ => true
  | _ => false

end Stage

namespace LogEvent

def cacheHit (id : Uuid) : LogEvent := ⟨.debug, "user cache hit", [("user_id", id.render)]⟩

def cacheMiss (id : Uuid) : LogEvent := ⟨.debug, "user cache miss", [("user_id", id.render)]⟩

def cacheReadFailed (id : Uuid) (e : CacheError) : LogEvent :=
  ⟨.warn, "user cache read failed, treating as miss",
    [("user_id", id.render), ("error", e.summary)]⟩

def indexMiss (email : String) : LogEvent := ⟨.debug, "email index miss", [("email", email)]⟩

def indexReadFailed (email : String) (e : CacheError) : LogEvent :=
  ⟨.warn, "email index read failed, treating as miss", [("email", email), ("error", e.summary)]⟩

def staleIndex (email : String) (id : Uuid) : LogEvent :=
  ⟨.debug, "stale email index entry", [("email", email), ("user_id", id.render)]⟩

def writeSkipped (id : Uuid) : LogEvent :=
  ⟨.debug, "user changed since read, skipping cache write", [("user_id", id.render)]⟩

def populated (id : Uuid) : LogEvent := ⟨.debug, "user cache populated", [("user_id", id.render)]⟩

def populateFailed (id : Uuid) (e : CacheError) : LogEvent :=
  ⟨.warn, "failed to populate user cache", [("user_id", id.render), ("error", e.summary)]⟩

def dropEntryFailed (id : Uuid) (e : CacheError) : LogEvent :=
  ⟨.error, "failed to invalidate user cache entry",
    [("user_id", id.render), ("error", e.summary)]⟩

def dropIndexFailed (email : String) (e : CacheError) : LogEvent :=
  ⟨.error, "failed to invalidate email index entry", [("email", email), ("error", e.summary)]⟩

end LogEvent

namespace Next

/-- Saves a user; the cache may still know the email that it had before. -/
def save (w : Wiring) (u : User) : Next :=
  if w.isNone || u.id.isNil then .stage (.save u none) else .stage (.readReplaced u)

/-- Drops the index entries of emails, and returns an answer. -/
def dropIndexes (answer : StoreAnswer) : List String → Next
  | [] => .finished (.ok answer)
  | email :: rest => .stage (.dropIndex email (.answer rest answer))

end Next

def deliver (w : Wiring) (f : Fences) (id : Uuid) (u : User) : Purpose → Turn
  | .answer => { next := .finished (.ok (.user u)), fences := f }
  | .amend patch => { next := .save w (u.apply patch), fences := f }
  | .confirm email started =>
    if u.email = email then { next := .finished (.ok (.user u)), fences := f }
    else
      { next := .stage (.dropIndex email (.lookUp email started))
        fences := f
        logs := [.staleIndex email id] }

def deliverError (f : Fences) (id : Uuid) (e : UserError) : Purpose → Turn
  | .confirm email started =>
    match e with
    | .notFound _ =>
      { next := .stage (.dropIndex email (.lookUp email started))
        fences := f
        logs := [.staleIndex email id] }
    | e => { next := .finished (.error e), fences := f }
  | _ => { next := .finished (.error e), fences := f }

/-- Writes a user that was read from the store back to the cache, before the read goes on or
beside it. -/
def populate (w : Wiring) (f : Fences) (id : Uuid) (u : User) (started : Nat) (p : Purpose) :
    Turn :=
  if w.isNone then deliver w f id u p
  else if w.isInline then { next := .stage (.awaitWrite u started (some p)), fences := f }
  else { deliver w f id u p with spawned := some (.awaitWrite u started none) }

/-- Ends a write-back: gives up the fence and goes on with the read, if it waits. -/
def endWrite (w : Wiring) (f : Fences) (u : User) (p : Option Purpose) (e : LogEvent) : Turn :=
  let (woken, f) := f.release u.id
  match p with
  | none => { next := .finished (.ok .done), fences := f, logs := [e], woken }
  | some p =>
    let t := deliver w f u.id u p
    { t with logs := e :: t.logs, woken }

/-- What a reply to a read of an entry says about the user, and how that is logged. -/
def entryRead (id : Uuid) : CacheReply → Option User × LogEvent
  | .ok (.bytes bs) =>
    match User.codec.ofEntry bs with
    | .ok u => (some u, .cacheHit id)
    | .error e => (none, .cacheReadFailed id e)
  | .ok _ => (none, .cacheMiss id)
  | .error .keyNotFound => (none, .cacheMiss id)
  | .error e => (none, .cacheReadFailed id e)

/-- The emails whose index entries a change of a user touches. -/
def touchedEmails (u : User) (replaced : Option String) : List String :=
  (u.email :: (replaced.filter (· ≠ u.email)).toList).filter (· ≠ "")

namespace Stage

/-- What a task does when the reply comes that it waited for. A reply of another kind than was
asked for leaves the task where it is. -/
def turn (w : Wiring) (f : Fences) : Stage → Reply → Turn
  | .readEntry id started p, .cache r =>
    let (u?, e) := entryRead id r
    match u? with
    | some u => let t := deliver w f id u p; { t with logs := e :: t.logs }
    | none => { next := .stage (.fetch id started p), fences := f, logs := [e] }
  | .fetch id started p, .store r =>
    match r with
    | .ok (.user u) => populate w f id u started p
    | .ok a => { next := .finished (.ok a), fences := f }
    | .error e => deliverError f id e p
  | .readIndex email started, .cache r =>
    match r with
    | .ok (.bytes bs) =>
      match Codec.uuid.ofEntry bs with
      | .ok id =>
        { next := .stage (.readEntry id f.clock (.confirm email started)), fences := f }
      | .error e =>
        { next := .stage (.fetchByEmail email started), fences := f
          logs := [.indexReadFailed email e] }
    | .ok _ | .error .keyNotFound =>
      { next := .stage (.fetchByEmail email started), fences := f, logs := [.indexMiss email] }
    | .error e =>
      { next := .stage (.fetchByEmail email started), fences := f
        logs := [.indexReadFailed email e] }
  | .fetchByEmail _ started, .store r =>
    match r with
    | .ok (.user u) => populate w f u.id u started .answer
    | r => { next := .finished r, fences := f }
  | .awaitWrite u started p, .granted =>
    if started < (f.fence u.id).stamp then endWrite w f u p (.writeSkipped u.id)
    else { next := .stage (.writeEntry u p), fences := f }
  | .writeEntry u p, .cache r =>
    match r with
    | .ok _ =>
      if u.email = "" then endWrite w f u p (.populated u.id)
      else { next := .stage (.writeIndex u p), fences := f }
    | .error e => endWrite w f u p (.populateFailed u.id e)
  | .writeIndex u p, .cache r =>
    match r with
    | .ok _ => endWrite w f u p (.populated u.id)
    | .error e => endWrite w f u p (.populateFailed u.id e)
  | .readReplaced u, .cache r =>
    let (u?, e) := entryRead u.id r
    { next := .stage (.save u (u?.map (·.email))), fences := f, logs := [e] }
  | .save _ replaced, .store r =>
    match r with
    | .ok (.user u) =>
      if w.isNone then { next := .finished r, fences := f }
      else
        { next := .stage (.awaitDrop u.id (touchedEmails u replaced) (.user u)), fences := f }
    | r => { next := .finished r, fences := f }
  | .readDoomed id, .cache r =>
    let (u?, e) := entryRead id r
    { next := .stage (.delete id (u?.map (·.email))), fences := f, logs := [e] }
  | .delete id email, .store r =>
    match r with
    | .ok a =>
      if w.isNone then { next := .finished r, fences := f }
      else
        { next := .stage (.awaitDrop id (email.toList.filter (· ≠ "")) a), fences := f }
    | r => { next := .finished r, fences := f }
  | .awaitDrop id emails a, .granted =>
    { next := .stage (.dropEntry id emails a), fences := f.stamp id }
  | .dropEntry id emails a, .cache r =>
    let (woken, f) := f.release id
    { next := .dropIndexes a emails, fences := f, woken
      logs := match r with
        | .ok _ => []
        | .error e => [.dropEntryFailed id e] }
  | .dropIndex email afterwards, .cache r =>
    { next := match afterwards with
        | .lookUp email started => .stage (.fetchByEmail email started)
        | .answer emails a => .dropIndexes a emails
      fences := f
      logs := match r with
        | .ok _ => []
        | .error e => [.dropIndexFailed email e] }
  | .query _, .store r => { next := .finished r, fences := f }
  | .getVersion _, .store r => { next := .finished r, fences := f }
  | s, _ => { next := .stage s, fences := f }

end Stage

def Job.start (w : Wiring) (f : Fences) : Job → Next
  | .request (.get id) =>
    .stage (if w.isNone then .fetch id f.clock .answer else .readEntry id f.clock .answer)
  | .request (.getByEmail email) =>
    .stage (if w.isNone then .fetchByEmail email f.clock else .readIndex email f.clock)
  | .request (.save u) => .save w u
  | .request (.delete id) => .stage (if w.isNone then .delete id none else .readDoomed id)
  | .request (.query p) => .stage (.query p)
  | .request (.getVersion v) => .stage (.getVersion v)
  | .amend id patch =>
    .stage
      (if w.isNone then .fetch id f.clock (.amend patch) else .readEntry id f.clock (.amend patch))

end UserDirectory
