import Coap.ContentFormat
import Coap.NoResponse
import Coap.Observe
import Coap.Uri

/-! The well-known options as typed fields. Of an option that may not repeat the last value
counts; a value of the wrong kind reads as absent. -/
namespace Coap

structure Headers where
  resourceUri : Option String := none
  /-- True registers an observer, false deregisters it. -/
  observe : Option Bool := none
  contentFormat : Option ContentFormat := none
  maxAge : Option UInt32 := none
  accept : Option ContentFormat := none
  proxyUri : Option String := none
  proxyScheme : Option String := none
  locationPath : Option String := none
  locationQuery : Option String := none
  ifMatch : List Bytes := []
  ifNoneMatch : Bool := false
  etags : List Bytes := []
  size1 : Option UInt32 := none
  noResponse : Option NoResponse := none
  deriving DecidableEq

namespace Options

def lastUint? (o : Options) (n : OptionNumber) : Option UInt32 := (o.last? n).bind (·.asUint?)

def lastText? (o : Options) (n : OptionNumber) : Option String := (o.last? n).bind (·.asText?)

def blobs (o : Options) (n : OptionNumber) : List Bytes := (o.getAll n).filterMap (·.asBlob?)

/-- A slash before each segment; none without segments. -/
def joinPath? (segments : List String) : Option String :=
  if segments.isEmpty then none else some (String.join (segments.map ("/" ++ ·)))

/-- An ampersand between arguments; none without arguments. -/
def joinQuery? (arguments : List String) : Option String :=
  if arguments.isEmpty then none else some ("&".intercalate arguments)

def headers (o : Options) : Headers where
  resourceUri := o.uri.render?
  observe := (o.lastUint? .observe).map fun n => (Observe.ofUint n).isRegister
  contentFormat := (o.lastUint? .contentFormat).bind ContentFormat.ofUint?
  maxAge := o.lastUint? .maxAge
  accept := (o.lastUint? .accept).bind ContentFormat.ofUint?
  proxyUri := o.lastText? .proxyUri
  proxyScheme := o.lastText? .proxyScheme
  locationPath := joinPath? (o.texts .locationPath)
  locationQuery := joinQuery? (o.texts .locationQuery)
  ifMatch := o.blobs .ifMatch
  ifNoneMatch := o.contains .ifNoneMatch
  etags := o.blobs .etag
  size1 := o.lastUint? .size1
  noResponse := (o.lastUint? .noResponse).map NoResponse.ofUint

end Options

namespace Headers

def segments (sep : Char) (s : Option String) : List OptionValue :=
  (Text.parts sep ((s.map String.toList).getD [])).map fun part => .text (String.ofList part)

/-- The options that these fields describe; only a resource URI can be at fault. -/
def toOptions (h : Headers) : Except Uri.Error Options :=
  let addressed := match h.resourceUri with
    | some s => Options.empty.setUri s
    | none => .ok .empty
  addressed.map fun o =>
    let o := o.push? .observe (h.observe.map fun b => .uint (Observe.ofBool b).toUint)
    let o := o.push? .contentFormat (h.contentFormat.map fun f => .uint f.toUint)
    let o := o.push? .accept (h.accept.map fun f => .uint f.toUint)
    let o := o.push? .maxAge (h.maxAge.map .uint)
    let o := o.push? .size1 (h.size1.map .uint)
    let o := o.push? .noResponse (h.noResponse.map fun r => .uint r.toUint)
    let o := o.push? .proxyUri (h.proxyUri.map .text)
    let o := o.push? .proxyScheme (h.proxyScheme.map .text)
    let o := o.pushAll .locationPath (segments '/' h.locationPath)
    let o := o.pushAll .locationQuery (segments '&' h.locationQuery)
    let o := o.pushAll .ifMatch (h.ifMatch.map .blob)
    let o := o.pushAll .etag (h.etags.map .blob)
    if h.ifNoneMatch then o.push .ifNoneMatch .empty else o

end Headers
end Coap
