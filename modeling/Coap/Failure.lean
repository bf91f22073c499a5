import Coap.Message.Wire
import Coap.Query

/-! Failures of a session: what went wrong, and what was being done. -/
namespace Coap

inductive Activity where
  | receiving
  | polling
  | sending (id : MessageId) (token : Token)
  | authenticating
  | sweeping
  | keepingAlive
  /-- Opening or closing the transport. -/
  | lifecycle
  deriving DecidableEq

inductive Cause where
  | transport (reason : String)
  | unreadable (cause : Message.ReadError)
  | unwritable (cause : Message.WriteError)
  | invalidUri (cause : Uri.Error)
  | invalidQuery (cause : Query.Error)
  /-- Every message id belongs to a pending exchange. -/
  | idsExhausted
  | unauthenticated
  | clockFailed
  /-- The milliseconds since the clock's epoch do not fit in 64 bits. -/
  | clockOverflow
  deriving DecidableEq

structure Failure where
  cause : Cause
  during : Activity
  deriving DecidableEq

def Activity.text : Activity → String
  | receiving => "Receiving"
  | polling => "Polling"
  | sending id token => "SendingMessage(" ++ id.text ++ ", " ++ token.text ++ ")"
  | authenticating => "Authenticating"
  | sweeping => "Sweeping"
  | keepingAlive => "KeepingAlive"
  | lifecycle => "Lifecycle"

def Cause.message : Cause → String
  | transport reason => "transport error: " ++ reason
  | unreadable cause => cause.message
  | unwritable cause => cause.message
  | invalidUri cause => cause.message
  | invalidQuery cause => cause.message
  | idsExhausted => "no message ids available"
  | unauthenticated => "peer failed to authenticate"
  | clockFailed => "clock failed to provide the time"
  | clockOverflow => "milliseconds since epoch overflowed"

namespace Failure

def message (f : Failure) : String := f.cause.message ++ " (while " ++ f.during.text ++ ")"

/-- The error of a datagram that could not be read. -/
def readError? (f : Failure) : Option Message.ReadError :=
  match f.cause with
  | .unreadable cause => some cause
  | _ => none

def isUnauthenticated (f : Failure) : Bool := f.cause == .unauthenticated

end Failure
end Coap
