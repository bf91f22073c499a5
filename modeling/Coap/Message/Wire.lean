import Coap.Message.Basic
import Coap.Options.Wire

/-! Messages as octets: a head octet, the code, the id, the token, the options and, behind a
marker, the payload. -/
namespace Coap.Message

inductive ReadError where
  | endOfInput
  | versionMismatch (version : UInt8)
  | invalidTokenLength (length : Nat)
  | invalidType (number : Nat)
  | options (cause : Options.ReadError)
  deriving DecidableEq

def ReadError.message : ReadError → String
  | endOfInput => "message ended unexpectedly"
  | versionMismatch version => "unsupported CoAP version " ++ toString version.toNat
  | invalidTokenLength length => "token length " ++ toString length ++ " is greater than 8"
  | invalidType number => "invalid message type " ++ toString number
  | options cause => "invalid option: " ++ cause.message

structure WriteError where
  cause : Options.WriteError
  deriving DecidableEq

def WriteError.message (e : WriteError) : String := "invalid option: " ++ e.cause.message

def readType (n : Nat) : Except ReadError MessageType :=
  match MessageType.ofNat? n with
  | some t => .ok t
  | none => .error (.invalidType n)

/-- Two bits of the version, two of the type and four of the token's length. Of a larger version
the low bits go out. -/
def headOctet (m : Message) : UInt8 :=
  UInt8.ofNat (m.version.toNat % 4 * 64 + m.type.toNat * 16 + m.token.length)

/-- An empty payload is written without a marker. -/
def payloadOctets (payload : Bytes) : Bytes :=
  if payload.isEmpty then [] else payloadMarker :: payload

def write (m : Message) : Except WriteError Bytes :=
  match m.options.write with
  | .error e => .error ⟨e⟩
  | .ok options =>
    .ok (m.headOctet :: m.code.toByte :: Bytes.ofWord16 m.id ++ m.token.bytes ++ options ++
      payloadOctets m.payload)

/-- What stands behind code and id: token, options and payload. -/
def readRest (type : MessageType) (code : Code) (id : MessageId) (tokenLength : Nat) (bs : Bytes) :
    Except ReadError Message :=
  match Entry.split? tokenLength bs with
  | none => .error .endOfInput
  | some (front, bs) =>
    match Token.ofBytes? front with
    | none => .error (.invalidTokenLength tokenLength)
    | some token =>
      match Options.read bs with
      | .error e => .error (.options e)
      | .ok (options, payload) =>
        .ok { version := 1, type, code, id, token, options, payload }

/-- The head octet is judged whole before another octet is read. -/
def read : Bytes → Except ReadError Message
  | [] => .error .endOfInput
  | head :: bs =>
    let version := head.toNat / 64
    let tokenLength := head.toNat % 16
    match readType (head.toNat / 16 % 4) with
    | .error e => .error e
    | .ok type =>
      if version ≠ 1 then .error (.versionMismatch (UInt8.ofNat version))
      else if tokenLength > maxTokenLength then .error (.invalidTokenLength tokenLength)
      else
        match bs with
        | code :: hi :: lo :: bs =>
          readRest type (Code.ofByte code) (Bytes.word16 hi lo) tokenLength bs
        | _ => .error .endOfInput

end Coap.Message
