import Coap.Code
import Coap.Headers
import Coap.MessageId
import Coap.MessageType
import Coap.Token

/-! Messages, and the options that their own getters read. A getter of one option reads its
first value. -/
namespace Coap

structure Message where
  version : UInt8 := 1
  type : MessageType := .confirmable
  code : Code := .empty
  id : MessageId := 0
  token : Token := .empty
  options : Options := .empty
  payload : Bytes := []
  deriving DecidableEq

namespace Message

instance : Inhabited Message := ⟨{}⟩

def kind (m : Message) : CodeKind := m.code.kind

def isEmpty (m : Message) : Bool := m.kind == .empty

/-- The empty acknowledgement that carries an id and this message's token. -/
def ack (m : Message) (id : MessageId) : Message :=
  { type := .acknowledgement, id, token := m.token }

/-- The empty reset that rejects this message. -/
def rejection (m : Message) : Message :=
  { type := .reset, id := m.id, token := m.token }

def headers (m : Message) : Headers := m.options.headers

def setHeaders (m : Message) (h : Headers) : Except Uri.Error Message :=
  h.toOptions.map fun options => { m with options }

def resourceUri? (m : Message) : Option String := m.options.uri.render?

def setResourceUri (m : Message) (uri : String) : Except Uri.Error Message :=
  (m.options.setUri uri).map fun options => { m with options }

def uint? (m : Message) (n : OptionNumber) : Option UInt32 :=
  (m.options.get? n).bind (·.asUint?)

/-- True registers an observer. -/
def observeFlag? (m : Message) : Option Bool :=
  (m.uint? .observe).map fun n => (Observe.ofUint n).isRegister

def setObserve (m : Message) (register : Bool) : Message :=
  { m with options := m.options.set .observe (.uint (Observe.ofBool register).toUint) }

def contentFormat? (m : Message) : Option ContentFormat :=
  (m.uint? .contentFormat).bind ContentFormat.ofUint?

def setContentFormat (m : Message) (f : ContentFormat) : Message :=
  { m with options := m.options.set .contentFormat (.uint f.toUint) }

def accept? (m : Message) : Option ContentFormat :=
  (m.uint? .accept).bind ContentFormat.ofUint?

def maxAge? (m : Message) : Option UInt32 := m.uint? .maxAge

def noResponse? (m : Message) : Option NoResponse := (m.uint? .noResponse).map NoResponse.ofUint

def setNoResponse (m : Message) (r : NoResponse) : Message :=
  { m with options := m.options.set .noResponse (.uint r.toUint) }

/-- One line on a message: kind, type, code, id and payload size. -/
def summary (m : Message) : String :=
  m.kind.name ++ " " ++ m.type.name ++ " " ++ m.code.text ++ " id=" ++ toString m.id.toNat ++
    " with " ++ toString m.payload.length ++ " byte payload"

end Message
end Coap
