import UserDirectory.Uuid.Text

namespace UserDirectory

inductive ErrorKind
  | notFound
  | badRequest
  | internal
  deriving DecidableEq, Repr

inductive DatabaseFault
  /-- The server refused a statement, with its error code and message. -/
  | server (code message : String)
  | connectionClosed
  | invalidConnectionString
  /-- A statement that answers with one row answered with another number of rows. -/
  | unexpectedRows
  deriving DecidableEq, Repr

/-- Why a connection pool gives out no connection. -/
inductive PoolFault
  | closed
  /-- Every connection is in use, and none was given back in time. -/
  | noSlot
  /-- A new connection could not be opened. -/
  | notCreated (reason : String)
  deriving DecidableEq, Repr

inductive UserError
  | notFound (userId : Uuid)
  | versionNotFound (versionId : Uuid)
  | emailNotFound (email : String)
  | badRequest (reason : String)
  | database (fault : DatabaseFault)
  | databasePool (fault : PoolFault)
  | internalError (reason : String)
  deriving DecidableEq

def DatabaseFault.message : DatabaseFault → String
  | .server _ _ => "db error"
  | .connectionClosed => "connection closed"
  | .invalidConnectionString => "invalid connection string"
  | .unexpectedRows => "query returned an unexpected number of rows"

def PoolFault.message : PoolFault → String
  | .closed => "Pool has been closed"
  | .noSlot => "Timeout occurred while waiting for a slot to become available"
  | .notCreated reason => "Error occurred while creating a new object: " ++ reason

namespace UserError

def kind : UserError → ErrorKind
  | .notFound _ | .versionNotFound _ | .emailNotFound _ => .notFound
  | .badRequest _ => .badRequest
  | .database _ | .databasePool _ | .internalError _ => .internal

def isNotFound (e : UserError) : Bool := e.kind = .notFound

def message : UserError → String
  | .notFound id => "User not found: " ++ id.render
  | .versionNotFound id => "User version not found: " ++ id.render
  | .emailNotFound email => "User not found: " ++ email
  | .badRequest reason => "Bad request: " ++ reason
  | .database fault => "Database error: " ++ fault.message
  | .databasePool fault => "Database Pool error: " ++ fault.message
  | .internalError reason => "Internal error: " ++ reason

end UserError

/-- The codes with which a server refuses what its caller asked for: a foreign key, a check or a
not-null constraint is violated, or a text does not stand for a value of its type. -/
def callerFaultCodes : List String := ["23503", "23514", "23502", "22P02"]

/-- The error for a fault of the database: constraint violations and malformed values are the
caller's fault, everything else is internal. -/
def DatabaseFault.toUserError : DatabaseFault → UserError
  | .server code message =>
    if code ∈ callerFaultCodes then .badRequest message else .database (.server code message)
  | fault => .database fault

end UserDirectory
