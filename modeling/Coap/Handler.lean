import Coap.Message.Basic

/-! Which of the handlers takes a message: its code and its type decide. -/
namespace Coap

inductive Handler where
  /-- Answers an empty confirmable message. -/
  | ping
  | request (method : Method)
  /-- The peer rejected a message of ours. -/
  | reset
  /-- Acknowledgements, responses and notifications, and whatever is ignored. -/
  | response
  deriving DecidableEq

namespace Handler

/-- A request with a known method goes to the application whatever its type. -/
def ofMessage (m : Message) : Handler :=
  match m.kind, m.code.method? with
  | .request, some method => .request method
  | .request, none => if m.type = .reset then .reset else .response
  | .empty, _ =>
    match m.type with
    | .confirmable => .ping
    | .reset => .reset
    | _ => .response
  | .response, _ => if m.type = .reset then .reset else .response

def name : Handler → String
  | ping => "Ping"
  | request method => "Request(" ++ method.name ++ ")"
  | reset => "Reset"
  | response => "Response"

end Handler
end Coap
