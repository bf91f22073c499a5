import Coap.Clock
import Coap.Endpoint

/-! The surroundings of a session: clock, transport, application and authenticator. What they
remember is a world `ω`. A call waits until it is answered; what fails says why. -/
namespace Coap

structure Host (ω : Type) where
  tickUnit : TickUnit
  /-- The ticks since the clock's epoch, unless the clock fails. -/
  readClock : ω → Option Nat × ω
  openTransport : ω → Except String Unit × ω
  closeTransport : ω → Except String Unit × ω
  transmit : Bytes → ω → Except String Unit × ω
  /-- The next datagram that is ready, cut to a size; none if nothing is ready. -/
  collect : Nat → ω → Except String (Option Bytes) × ω
  /-- How many datagrams are ready. -/
  backlog : ω → Nat
  application : Application ω
  /-- Requests are refused until the peer has authenticated. -/
  credentialsRequired : Bool
  authenticate (tokenType token : String) : ω → Bool × ω

namespace Host

variable {ω : Type}

/-- The milliseconds since the clock's epoch. -/
def now (h : Host ω) (w : ω) : Except Cause Millis × ω :=
  match h.readClock w with
  | (none, w) => (.error .clockFailed, w)
  | (some ticks, w) =>
    match h.tickUnit.millis? ticks with
    | some millis => (.ok millis, w)
    | none => (.error .clockOverflow, w)

end Host
end Coap
