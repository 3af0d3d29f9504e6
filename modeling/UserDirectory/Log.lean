namespace UserDirectory

inductive LogLevel
  | debug
  | info
  | warn
  | error
  deriving DecidableEq, Repr

def LogLevel.name : LogLevel → String
  | .debug => "DEBUG"
  | .info => "INFO"
  | .warn => "WARN"
  | .error => "ERROR"

structure LogEvent where
  level : LogLevel
  message : String := ""
  fields : List (String × String) := []
  deriving DecidableEq, Repr

def LogEvent.render (e : LogEvent) : String :=
  String.intercalate " "
    ("LOG" :: e.level.name :: (if e.message = "" then [] else [e.message]) ++
      e.fields.map fun (name, value) => name ++ "=" ++ value)

end UserDirectory
