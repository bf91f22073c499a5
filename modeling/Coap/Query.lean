import Coap.Message.Basic
import Coap.Text.Quoted

/-! Resource queries: the parameters of a URI by which a peer names a resource and presents its
credentials. -/
namespace Coap

structure Query where
  resource : Option String := none
  messageId : Option UInt16 := none
  tokenType : Option String := none
  token : Option String := none
  cacheKey : Option String := none
  indexes : List (String × String) := []
  deriving DecidableEq

namespace Query

inductive Error where
  | messageId (value : String)
  | index (value : String)
  deriving DecidableEq

def Error.message : Error → String
  | messageId value => "mid=" ++ Text.quoted value ++ " is not a message id"
  | index value => "i=" ++ Text.quoted value ++ " is not a key;value pair"

/-- Key and value at the first equals sign; without one the value is empty. -/
def keyValue (parameter : List Char) : List Char × List Char :=
  (Text.cut '=' parameter).getD (parameter, [])

/-- Takes one parameter in. A key that is not known changes nothing. -/
def add (q : Query) (parameter : List Char) : Except Error Query :=
  let (key, value) := keyValue parameter
  let text := String.ofList value
  match String.ofList key with
  | "r" => .ok { q with resource := some text }
  | "mid" =>
    match Text.word16? value with
    | some n => .ok { q with messageId := some n }
    | none => .error (.messageId text)
  | "tt" => .ok { q with tokenType := some text }
  | "t" => .ok { q with token := some text }
  | "ck" => .ok { q with cacheKey := some text }
  | "i" =>
    match Text.cut ';' value with
    | some (k, v) => .ok { q with indexes := q.indexes ++ [(String.ofList k, String.ofList v)] }
    | none => .error (.index text)
  | _ => .ok q

/-- Parameters in order; the first at fault decides, and empty ones are passed over. -/
def ofParameters (parameters : List (List Char)) : Except Error Query :=
  (parameters.filter (!·.isEmpty)).foldlM add {}

/-- The parameters after the first question mark of a URI. -/
def parse (uri : String) : Except Error Query :=
  match Text.cut '?' uri.toList with
  | some (_, query) => ofParameters (query.splitOn '&')
  | none => .ok {}

def ofMessage (m : Message) : Except Error Query :=
  ofParameters ((m.options.texts .uriQuery).map String.toList)

/-- Token type and token, if both came. -/
def credentials? (q : Query) : Option (String × String) :=
  match q.tokenType, q.token with
  | some tokenType, some token => some (tokenType, token)
  | _, _ => none

end Query
end Coap
