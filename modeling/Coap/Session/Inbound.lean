import Coap.Session.Authentication

/-! Datagrams that come in. -/
namespace Coap.Session.Action

variable {κ ω : Type}

/-- The room for a datagram. -/
def maxDatagramSize : Nat := 1152

/-- Gives a message to the endpoint. -/
def handle (h : Host ω) (now : Millis) (m : Message) : Action κ ω (Option Message) := do
  let l ← get
  let turn := l.session.endpoint.handle h.application now m l.world
  set { l with session := { l.session with endpoint := turn.endpoint }, world := turn.world }
  emit turn.effects
  return turn.reply

/-- Reads and handles a datagram and sends the reply, if there is one. Only requests need an
authenticated peer. -/
def receive (h : Host ω) (datagram : Bytes) : Action κ ω (Option Message) := do
  let now ← now h .receiving
  postponePing now
  match Message.read datagram with
  | .error cause =>
    note (.discarded datagram.length cause)
    throw ⟨.unreadable cause, .receiving⟩
  | .ok m =>
    note (.received m)
    if m.kind = .request then ensureAuthentication h m false
    let reply ← handle h now m
    armTimers
    match reply with
    | some r => send h r (.sending r.id r.token)
    | none => pure ()
    return reply

/-- Handles the datagrams that are ready, at most `limit` of them, and counts them. One that
cannot be handled is noted and passed over. -/
def receiveReady (h : Host ω) : Nat → Nat → Action κ ω Nat
  | 0, count => return count
  | limit + 1, count => do
    match ← call (h.collect maxDatagramSize) with
    | .error reason => throw ⟨.transport reason, .polling⟩
    | .ok none => return count
    | .ok (some datagram) =>
      match ← outcome (receive h datagram) with
      | .error failure => note (.skipped failure)
      | .ok _ => pure ()
      receiveReady h limit (count + 1)

/-- The transport is asked once more than it has datagrams ready. -/
def poll (h : Host ω) : Action κ ω Nat := do
  receiveReady h (h.backlog (← get).world + 1) 0

end Coap.Session.Action
