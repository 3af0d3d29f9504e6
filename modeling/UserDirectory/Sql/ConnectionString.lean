import UserDirectory.Error
import UserDirectory.Network.Address
import UserDirectory.Network.Percent
import UserDirectory.Text.Blank

namespace UserDirectory.Sql

structure ConnectionTarget where
  /-- Names of servers, or paths of their sockets. -/
  hosts : List String := []
  addresses : List String := []
  ports : List Nat := []
  deriving DecidableEq, Repr, Inhabited

namespace ConnectionTarget

/-- Whether servers are named and there are as many of one kind of setting as of the others. One
port may stand for all servers. -/
def isComplete (t : ConnectionTarget) : Bool :=
  let count := if t.hosts.isEmpty then t.addresses.length else t.hosts.length
  count ≠ 0 && (t.addresses.isEmpty || t.addresses.length = count) &&
    (t.ports.length ≤ 1 || t.ports.length = count)

/-- A port; an empty text stands for the default. -/
def port? (cs : List Char) : Option Nat :=
  if cs.isEmpty then some 5432 else (Text.integer? 0 65535 cs).map Int.toNat

/-- The settings that name one of a few choices. -/
def choices : List (String × List String) :=
  [("sslmode", ["disable", "prefer", "require"]),
    ("sslnegotiation", ["postgres", "direct"]),
    ("target_session_attrs", ["any", "read-write", "read-only"]),
    ("channel_binding", ["disable", "prefer", "require"]),
    ("load_balance_hosts", ["disable", "random"])]

/-- The bounds of signed integers of 64 bits. -/
def signedBounds : Int × Int := (-0x8000000000000000, 0x7fffffffffffffff)

/-- The settings that hold an integer, with its bounds. -/
def integers : List (String × Int × Int) :=
  [("connect_timeout", signedBounds),
    ("tcp_user_timeout", signedBounds),
    ("keepalives", 0, 0xffffffffffffffff),
    ("keepalives_idle", signedBounds),
    ("keepalives_interval", signedBounds),
    ("keepalives_retries", 0, 0xffffffff)]

def texts : List String := ["user", "password", "dbname", "options", "application_name"]

/-- Makes a setting; none if there is no such setting or its value is none for it. -/
def set? (t : ConnectionTarget) (key value : String) : Option ConnectionTarget :=
  let items := value.toList.splitOn ','
  if key = "host" then some { t with hosts := t.hosts ++ items.map String.ofList }
  else if key = "hostaddr" then
    if items.all Network.isAddress then
      some { t with addresses := t.addresses ++ items.map String.ofList }
    else none
  else if key = "port" then
    (items.mapM port?).map fun ports => { t with ports := t.ports ++ ports }
  else if key ∈ texts then some t
  else
    match choices.lookup key, integers.lookup key with
    | some names, _ => if value ∈ names then some t else none
    | none, some (lo, hi) => (Text.integer? lo hi value.toList).map fun _ => t
    | none, none => none

def setAll? (t : ConnectionTarget) (settings : List (String × String)) : Option ConnectionTarget :=
  settings.foldlM (fun t (key, value) => t.set? key value) t

end ConnectionTarget

/-! The list form: names and values with equals signs between them. -/

namespace SettingList

/-- A value without quotes and what follows it. A backslash keeps the next character as it is. -/
def plainValue : List Char → List Char × List Char
  | '\\' :: c :: rest => let (v, rest) := plainValue rest; (c :: v, rest)
  | ['\\'] => ([], [])
  | c :: rest =>
    if Text.isBlank c then ([], c :: rest)
    else let (v, rest) := plainValue rest; (c :: v, rest)
  | [] => ([], [])

/-- A value up to a closing quote, and what follows the quote. -/
def quotedValue? : List Char → Option (List Char × List Char)
  | '\\' :: c :: rest => (quotedValue? rest).map fun (v, rest) => (c :: v, rest)
  | '\'' :: rest => some ([], rest)
  | c :: rest => (quotedValue? rest).map fun (v, rest) => (c :: v, rest)
  | [] => none

/-- A value, which is empty only inside quotes. -/
def value? : List Char → Option (List Char × List Char)
  | '\'' :: rest => quotedValue? rest
  | cs => some (plainValue cs) |>.filter fun (v, _) => !v.isEmpty

/-- The settings of a list, of which it has at most `bound`. A list ends where no name follows. -/
def readUpTo : Nat → List Char → Option (List (String × String))
  | 0, _ => some []
  | bound + 1, cs =>
    let cs := cs.dropWhile Text.isBlank
    let (key, rest) := cs.span fun c => !Text.isBlank c && c ≠ '='
    if key.isEmpty then some []
    else
      match rest.dropWhile Text.isBlank with
      | '=' :: rest =>
        match value? (rest.dropWhile Text.isBlank) with
        | some (v, rest) =>
          (readUpTo bound rest).map ((String.ofList key, String.ofList v) :: ·)
        | none => none
      | _ => none

/-- The settings of a list. Each takes up at least one character. -/
def read (cs : List Char) : Option (List (String × String)) := readUpTo (cs.length + 1) cs

end SettingList

/-! The URL form: credentials, servers, a database and settings. -/

namespace ConnectionUrl

/-- What stands before and after the first of some characters. -/
def splitAt? (isEnd : Char → Bool) (cs : List Char) : Option (List Char × List Char) :=
  match cs.span (!isEnd ·) with
  | (a, _ :: b) => some (a, b)
  | (_, []) => none

/-- What follows the credentials. Only a password need not be a text. -/
def skipCredentials (cs : List Char) : Option (List Char) :=
  match splitAt? (· = '@') cs with
  | some (credentials, rest) =>
    (Network.percentDecodeText? (credentials.takeWhile (· ≠ ':'))).map fun _ => rest
  | none => some cs

/-- Adds a server. Only the path of a socket need not be a text. -/
def addHost? (t : ConnectionTarget) (cs : List Char) : Option ConnectionTarget :=
  match Network.percentDecodeText? cs with
  | some host => some { t with hosts := t.hosts ++ [host] }
  | none =>
    if (Network.percentDecode cs).head? = some 47 then
      some { t with hosts := t.hosts ++ [String.ofList cs] }
    else none

/-- The name of a server and its port if one is given. An address in brackets may hold colons. -/
def hostAndPort? : List Char → Option (List Char × Option (List Char))
  | '[' :: rest =>
    match splitAt? (· = ']') rest with
    | some (host, ':' :: port) => some (host, some port)
    | some (host, []) => some (host, none)
    | _ => none
  | cs =>
    match splitAt? (· = ':') cs with
    | some (host, port) => some (host, some port)
    | none => some (cs, none)

def addServer? (t : ConnectionTarget) (cs : List Char) : Option ConnectionTarget := do
  let (host, port) ← hostAndPort? cs
  let t ← addHost? t host
  t.set? "port" (← Network.percentDecodeText? (port.getD "5432".toList))

/-- Makes a setting that stands after the question mark. -/
def addSetting? (t : ConnectionTarget) (cs : List Char) : Option ConnectionTarget := do
  let (key, value) ← splitAt? (· = '=') cs
  let key ← Network.percentDecodeText? key
  if key = "host" then addHost? t value
  else t.set? key (← Network.percentDecodeText? value)

/-- The settings after the question mark, of which there are at most `bound`. A name goes up to the
next equals sign, a value up to the next ampersand. -/
def settingsUpTo : Nat → List Char → List (List Char)
  | 0, _ => []
  | bound + 1, cs =>
    if cs.isEmpty then []
    else
      let (key, rest) := cs.span (· ≠ '=')
      let (value, rest) := rest.span (· ≠ '&')
      (key ++ value) :: settingsUpTo bound rest.tail

/-- The target of a URL whose scheme was taken off. -/
def read (cs : List Char) : Option ConnectionTarget := do
  let cs ← skipCredentials cs
  let (servers, rest) := cs.span fun c => c ≠ '/' && c ≠ '?'
  let t ←
    if servers.isEmpty then some {} else (servers.splitOn ',').foldlM addServer? {}
  let (path, rest) := rest.span (· ≠ '?')
  let _ ← Network.percentDecodeText? (path.drop 1)
  (settingsUpTo rest.length rest.tail).foldlM addSetting? t

end ConnectionUrl

namespace ConnectionTarget

def after? (start cs : List Char) : Option (List Char) :=
  if start.isPrefixOf cs then some (cs.drop start.length) else none

def ofString? (s : String) : Option ConnectionTarget :=
  let cs := s.toList
  match after? "postgres://".toList cs <|> after? "postgresql://".toList cs with
  | some rest => ConnectionUrl.read rest
  | none => (SettingList.read cs).bind fun settings => setAll? {} settings

def ofString (s : String) : Except DatabaseFault ConnectionTarget :=
  match ofString? s with
  | some t => .ok t
  | none => .error .invalidConnectionString

end ConnectionTarget

end UserDirectory.Sql
