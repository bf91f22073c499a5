import Coap.Bytes
import Coap.Text.Blank

/-! Content formats: numbers that stand for media types. -/
namespace Coap

inductive ContentFormat where
  | text
  | linkFormat
  | xml
  | octetStream
  | exi
  | json
  | cbor
  | other (number : UInt16)
  deriving DecidableEq

/-- What refuses a media type without a number, or a number without a media type. -/
structure UnsupportedMediaType where
  deriving DecidableEq

def UnsupportedMediaType.message (_ : UnsupportedMediaType) : String := "unsupported media type"

namespace ContentFormat

def toNumber : ContentFormat → UInt16
  | text => 0
  | linkFormat => 40
  | xml => 41
  | octetStream => 42
  | exi => 47
  | json => 50
  | cbor => 60
  | other n => n

def ofNumber (n : UInt16) : ContentFormat :=
  if n = 0 then text
  else if n = 40 then linkFormat
  else if n = 41 then xml
  else if n = 42 then octetStream
  else if n = 47 then exi
  else if n = 50 then json
  else if n = 60 then cbor
  else other n

/-- Wider numbers stand for no format. -/
def ofUint? (n : UInt32) : Option ContentFormat :=
  if n.toNat < 65536 then some (ofNumber (UInt16.ofNat n.toNat)) else none

def toUint (f : ContentFormat) : UInt32 := UInt32.ofNat f.toNumber.toNat

def bytes (f : ContentFormat) : Bytes := Bytes.ofWord16 f.toNumber

def mediaType? : ContentFormat → Option String
  | text => some "text/plain"
  | linkFormat => some "application/link-format"
  | xml => some "application/xml"
  | octetStream => some "application/octet-stream"
  | exi => some "application/exi"
  | json => some "application/json"
  | cbor => some "application/cbor"
  | other _ => none

def named : List ContentFormat := [text, linkFormat, xml, octetStream, exi, json, cbor]

/-- Parameters after a semicolon and blanks around the type do not count. -/
def ofMediaType? (s : String) : Option ContentFormat :=
  let essence := String.ofList (Text.trim (s.toList.takeWhile (· != ';')))
  named.find? (·.mediaType? = some essence)

def name : ContentFormat → String
  | text => "Text"
  | linkFormat => "LinkFormat"
  | xml => "Xml"
  | octetStream => "OctetStream"
  | exi => "Exi"
  | json => "Json"
  | cbor => "Cbor"
  | other n => "Other(" ++ toString n.toNat ++ ")"

theorem toNumber_ofNumber (n : UInt16) : (ofNumber n).toNumber = n := by
  unfold ofNumber
  repeat' split
  all_goals first | rfl | (subst_vars; rfl)

end ContentFormat
end Coap
