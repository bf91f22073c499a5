import Coap.Notice

/-! Effects: what an endpoint does to its surroundings. Callbacks are named by `κ`. -/
namespace Coap

inductive Effect (κ : Type) where
  | noted (notice : Notice)
  /-- The application was asked to answer a request. -/
  | asked (method : Method) (request : Message)
  /-- A callback was called with a response. -/
  | delivered (callback : κ) (response : Message)
  /-- A listener was told of a message that was never acknowledged. -/
  | abandoned (listener : κ) (id : MessageId) (token : Token)
  /-- A credential was presented to the authenticator. -/
  | presented (tokenType token : String)
  /-- The transport took a datagram. -/
  | sent (datagram : Bytes)
  deriving DecidableEq

end Coap
