namespace UserDirectory

inductive CacheError
  | keyNotFound
  | serialization (reason : String)
  | deserialization (reason : String)
  | connection (reason : String)
  | backend (reason : String)
  | timeout
  deriving DecidableEq, Repr

def CacheError.message : CacheError → String
  | .keyNotFound => "Key not found"
  | .serialization reason => "Serialization error: " ++ reason
  | .deserialization reason => "Deserialization error: " ++ reason
  | .connection reason => "Connection error: " ++ reason
  | .backend reason => "Backend error: " ++ reason
  | .timeout => "Cache operation timed out"

/-- The message without what a text was found to be wrong with. -/
def CacheError.summary : CacheError → String
  | .deserialization _ => "Deserialization error"
  | e => e.message

end UserDirectory
