import UserDirectory.Json.Value
import UserDirectory.Text.Quoted

namespace UserDirectory.Json

/-- What stands where a value of another type is expected. -/
inductive Found
  | null
  | bool (b : Bool)
  | integer (i : Int)
  | floating
  | text (s : String)
  | list
  | object
  | bareVariant
  deriving DecidableEq, Repr

/-- Well-formed data of the wrong shape. -/
inductive Mismatch
  | missingField (name : String)
  | duplicateField (name : String)
  | wrongType (found : Found) (expected : String)
  | wrongValue (found : Found) (expected : String)
  | wrongLength (length : Nat) (expected : String)
  | unknownVariant (name : String) (known : List String)
  | malformedUuid
  deriving DecidableEq, Repr

inductive Fault
  | malformed
  | endOfText
  | mismatch (m : Mismatch)
  deriving DecidableEq, Repr

def Found.describe : Found → String
  | .null => "null"
  | .bool true => "boolean `true`"
  | .bool false => "boolean `false`"
  | .integer i => "integer `" ++ toString i ++ "`"
  | .floating => "floating point"
  | .text s => "string " ++ Text.quote s
  | .list => "sequence"
  | .object => "map"
  | .bareVariant => "unit variant"

def Number.found : Number → Found
  | .integer i => .integer i
  | .floating => .floating

def Value.found : Value → Found
  | .null => .null
  | .bool b => .bool b
  | .number n => n.found
  | .text s => .text s
  | .list _ => .list
  | .object _ => .object

def choice : List String → String
  | [] => "none"
  | [a] => "`" ++ a ++ "`"
  | [a, b] => "`" ++ a ++ "` or `" ++ b ++ "`"
  | names => "one of " ++ String.intercalate ", " (names.map fun n => "`" ++ n ++ "`")

def Mismatch.message : Mismatch → String
  | .missingField name => "missing field `" ++ name ++ "`"
  | .duplicateField name => "duplicate field `" ++ name ++ "`"
  | .wrongType found expected => "invalid type: " ++ found.describe ++ ", expected " ++ expected
  | .wrongValue found expected => "invalid value: " ++ found.describe ++ ", expected " ++ expected
  | .wrongLength n expected => "invalid length " ++ toString n ++ ", expected " ++ expected
  | .unknownVariant name known => "unknown variant `" ++ name ++ "`, expected " ++ choice known
  | .malformedUuid => "UUID parsing failed"

def Fault.message : Fault → String
  | .malformed => "malformed text"
  | .endOfText => "unexpected end of text"
  | .mismatch m => m.message

end UserDirectory.Json
