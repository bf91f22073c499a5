import Coap.Options.Basic
import Coap.Text.Decimal
import Coap.Text.Parts

/-! Resource URIs: the host, port, path segments and query arguments that travel as options.
Octets written with a percent sign stay as they are. -/
namespace Coap

structure Uri where
  host : Option String
  port : Option UInt16
  path : List String
  query : List String
  deriving DecidableEq

namespace Uri

inductive Error where
  | port
  | unclosedHost
  deriving DecidableEq

def Error.message : Error → String
  | port => "uri port is not a valid port number"
  | unclosedHost => "uri host is missing a closing `]`"

/-- What follows the first `://`. -/
def afterScheme? : List Char → Option (List Char)
  | ':' :: '/' :: '/' :: rest => some rest
  | _ :: rest => afterScheme? rest
  | [] => none

def endsAuthority (c : Char) : Bool := c == '/' || c == '?'

/-- The authority, and the path and query after it; no scheme, no authority. -/
def splitAuthority (s : List Char) : List Char × List Char :=
  match afterScheme? s with
  | some rest => (rest.takeWhile (!endsAuthority ·), rest.dropWhile (!endsAuthority ·))
  | none => ([], s)

def parsePort (s : List Char) : Except Error (Option UInt16) :=
  match Text.word16? s with
  | some p => .ok (some p)
  | none => .error .port

/-- A host in brackets ends at the first closing one, and only a colon right behind it brings a
port; any other host ends at the last colon. -/
def parseAuthority : List Char → Except Error (List Char × Option UInt16)
  | '[' :: rest =>
    match Text.cut ']' rest with
    | none => .error .unclosedHost
    | some (host, ':' :: port) => (parsePort port).map ((host, ·))
    | some (host, _) => .ok (host, none)
  | authority =>
    match Text.cutLast ':' authority with
    | some (host, port) => (parsePort port).map ((host, ·))
    | none => .ok (authority, none)

def nonEmpty? (s : List Char) : Option String := if s.isEmpty then none else some (String.ofList s)

def parse (s : String) : Except Error Uri :=
  let (authority, rest) := splitAuthority s.toList
  match parseAuthority authority with
  | .error e => .error e
  | .ok (host, port) =>
    let (path, query) := (Text.cut '?' rest).getD (rest, [])
    .ok ⟨nonEmpty? host, port, (Text.parts '/' path).map String.ofList,
      (Text.parts '&' query).map String.ofList⟩

def isEmpty (u : Uri) : Bool :=
  u.host.isNone && u.port.isNone && u.path.isEmpty && u.query.isEmpty

/-- A host that holds a colon goes in brackets. -/
def renderHost (host : String) : String :=
  if ':' ∈ host.toList then "[" ++ host ++ "]" else host

def renderPort (port : UInt16) : String := ":" ++ toString port.toNat

/-- The text of a URI of the scheme `coap`; none if there is nothing to address. -/
def render? (u : Uri) : Option String :=
  if u.isEmpty then none
  else
    let query := if u.query.isEmpty then "" else "?" ++ "&".intercalate u.query
    some ("coap://" ++ (u.host.map renderHost).getD "" ++ (u.port.map renderPort).getD "" ++
      String.join (u.path.map ("/" ++ ·)) ++ query)

end Uri

namespace Options

/-- Makes the URI's parts the only ones that the options hold. -/
def putUri (o : Options) (u : Uri) : Options :=
  let o := (((o.erase .uriHost).erase .uriPort).erase .uriPath).erase .uriQuery
  let o := o.push? .uriHost (u.host.map .text)
  let o := o.push? .uriPort (u.port.map fun p => .uint (UInt32.ofNat p.toNat))
  (o.pushAll .uriPath (u.path.map .text)).pushAll .uriQuery (u.query.map .text)

/-- A text that is no URI changes nothing. -/
def setUri (o : Options) (s : String) : Except Uri.Error Options :=
  (Uri.parse s).map o.putUri

/-- The last value of an option. -/
def last? (o : Options) (n : OptionNumber) : Option OptionValue := (o.getAll n).getLast?

def texts (o : Options) (n : OptionNumber) : List String := (o.getAll n).filterMap (·.asText?)

/-- A port wider than 16 bits is none. -/
def word16? (v : OptionValue) : Option UInt16 :=
  v.asUint?.bind fun n => if n.toNat < 65536 then some (UInt16.ofNat n.toNat) else none

/-- Of a host or port that comes more than once the last one counts. -/
def uri (o : Options) : Uri where
  host := (o.last? .uriHost).bind (·.asText?)
  port := (o.last? .uriPort).bind word16?
  path := o.texts .uriPath
  query := o.texts .uriQuery

end Options
end Coap
