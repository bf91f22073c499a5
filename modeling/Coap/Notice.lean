import Coap.Failure

/-! Notices: what an endpoint tells its log. -/
namespace Coap

inductive Severity where
  | trace
  | debug
  | info
  | warning
  | error
  deriving DecidableEq

inductive Notice where
  | pong (ping : Message)
  | peerReset (reset : Message)
  | duplicateRequest (request : Message)
  | requestFailed (method : Method) (request : Message) (reason : String)
  | responseSuppressed (code : Code)
  | acknowledged (id : MessageId)
  | ignored (message : Message)
  | unsupportedMethod (request : Message)
  | duplicateResponse (response : Message)
  | unawaited (response : Message)
  | sent (message : Message)
  | discarded (size : Nat) (cause : Message.ReadError)
  | received (message : Message)
  /-- A datagram of a poll was not handled. -/
  | skipped (failure : Failure)
  | noCredentials (request : Message)
  | credentialRejected (tokenType : String)
  | credentialAccepted (tokenType : String)
  | idsForgotten (count : Nat)
  | retrying (message : Message)
  | abandoning (id : MessageId) (token : Token)
  | pinging (id : MessageId)
  | closeFailed (reason : String)
  /-- Work of a background timer failed. -/
  | background (failure : Failure)
  deriving DecidableEq

namespace Severity

def name : Severity → String
  | trace => "TRACE"
  | debug => "DEBUG"
  | info => "INFO"
  | warning => "WARN"
  | error => "ERROR"

end Severity

namespace Notice

def severity : Notice → Severity
  | pong _ => .trace
  | peerReset _ => .debug
  | duplicateRequest _ => .debug
  | requestFailed _ _ _ => .error
  | responseSuppressed _ => .trace
  | acknowledged _ => .trace
  | ignored _ => .debug
  | unsupportedMethod _ => .warning
  | duplicateResponse _ => .debug
  | unawaited _ => .debug
  | sent _ => .trace
  | discarded _ _ => .warning
  | received _ => .trace
  | skipped _ => .warning
  | noCredentials _ => .warning
  | credentialRejected _ => .warning
  | credentialAccepted _ => .debug
  | idsForgotten _ => .trace
  | retrying _ => .debug
  | abandoning _ _ => .warning
  | pinging _ => .trace
  | closeFailed _ => .warning
  | background _ => .error

/-- The part of the endpoint that speaks. -/
def place : Notice → String
  | pong _ => "ping::handle"
  | peerReset _ => "reset::handle"
  | duplicateRequest _ => "request::handle"
  | requestFailed _ _ _ => "request::handle"
  | responseSuppressed _ => "request::handle"
  | acknowledged _ => "response::handle"
  | ignored _ => "response::handle"
  | unsupportedMethod _ => "response::handle"
  | duplicateResponse _ => "response::handle"
  | unawaited _ => "response::handle"
  | sent _ => "Session::send"
  | discarded _ _ => "Session::receive"
  | received _ => "Session::receive"
  | skipped _ => "Session::poll"
  | noCredentials _ => "Session::ensure_authentication"
  | credentialRejected _ => "Session::ensure_authentication"
  | credentialAccepted _ => "Session::ensure_authentication"
  | idsForgotten _ => "Session::sweep_receiver"
  | retrying _ => "Session::sweep_transmitter"
  | abandoning _ _ => "Session::sweep_transmitter"
  | pinging _ => "Session::keepalive_tick"
  | closeFailed _ => "Session::dispose"
  | background _ => "Session::start"

def text : Notice → String
  | pong m => "pong: " ++ m.summary
  | peerReset m => "peer reset: " ++ m.summary
  | duplicateRequest m => "duplicate " ++ m.summary ++ ", acking without dispatch"
  | requestFailed method m reason => method.name ++ " failed for " ++ m.summary ++ ": " ++ reason
  | responseSuppressed code => code.text ++ " response suppressed by No-Response"
  | acknowledged id => id.text ++ " acknowledged"
  | ignored m => "ignoring " ++ m.summary
  | unsupportedMethod m => "unsupported method " ++ m.code.text ++ ", ignoring " ++ m.summary
  | duplicateResponse m => "duplicate " ++ m.summary ++ ", acking without delivery"
  | unawaited m => "nobody waiting on " ++ m.token.text ++ ", dropping " ++ m.summary
  | sent m => "sent " ++ m.summary
  | discarded size cause =>
    "discarding " ++ toString size ++ " byte datagram: " ++ cause.message
  | received m => "got " ++ m.summary
  | skipped failure => failure.message
  | noCredentials m => "no credentials presented with " ++ m.summary
  | credentialRejected tokenType => "rejected " ++ tokenType ++ " credential"
  | credentialAccepted tokenType => "authenticated with " ++ tokenType ++ " credential"
  | idsForgotten count => "forgot " ++ toString count ++ " message ids"
  | retrying m => "retrying " ++ m.summary
  | abandoning id token =>
    id.text ++ " (" ++ token.text ++ ") was never acknowledged, abandoning exchange"
  | pinging id => "ping " ++ id.text
  | closeFailed reason => "failed to close transport: " ++ reason
  | background failure => failure.message

def line (n : Notice) : String := n.severity.name ++ " [" ++ n.place ++ "] " ++ n.text

end Notice
end Coap
