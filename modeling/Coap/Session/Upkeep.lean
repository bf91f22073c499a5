import Coap.Session.Basic

/-! Upkeep: ids are forgotten, messages sent again or given up, and silence is broken by a ping. -/
namespace Coap.Session.Action

variable {κ ω : Type}

def sweepDedup (now : Millis) : Action κ ω Unit := do
  let before := (← session).endpoint.dedup
  let after := before.sweep now
  modifySession (·.setDedup after)
  if after.size < before.size then note (.idsForgotten (before.size - after.size))

/-- Sends a message again, or tells the listener that it was given up. -/
def actOn (h : Host ω) : Exchanges.Event → Action κ ω Unit
  | .retry m => do
    note (.retrying m)
    send h m (.sending m.id m.token)
  | .abandoned id token => do
    note (.abandoning id token)
    match (← session).listener with
    | some listener => emit [.abandoned listener id token]
    | none => pure ()

/-- Acts on the events of a sweep in order, up to the first that fails. -/
def sweepExchanges (h : Host ω) (now : Millis) : Action κ ω Unit := do
  let s ← session
  let (events, exchanges) := s.endpoint.exchanges.sweep now
  modifySession (·.setExchanges exchanges)
  events.forM (actOn h)

/-- The empty confirmable message that breaks a silence. -/
def pingMessage (id : MessageId) : Message := { id }

/-- Pings the peer under the next id and waits for a new silence, whether or not the ping goes
out. -/
def ping (h : Host ω) (interval now : Millis) : Action κ ω Unit := do
  let s ← session
  let (id, exchanges) := s.endpoint.exchanges.allocate
  note (.pinging id)
  modifySession (·.setExchanges (exchanges.schedule (pingMessage id) now))
  armTimers
  modifySession fun s => { s with pingDue := Millis.add now interval }
  send h (pingMessage id) .keepingAlive

def keepalive (h : Host ω) (now : Millis) : Action κ ω Unit := do
  let s ← session
  match s.config.keepalive with
  | some interval => if s.pingDue ≤ now then ping h interval now
  | none => pure ()

/-- Does all upkeep that is due. -/
def tick (h : Host ω) : Action κ ω Unit := do
  let now ← now h .sweeping
  sweepDedup now
  sweepExchanges h now
  keepalive h now

/-- Takes notice of traffic that the session did not see itself. -/
def refreshKeepalive (h : Host ω) : Action κ ω Unit := do
  postponePing (← now h .keepingAlive)

def setListener (listener : κ) : Action κ ω Unit :=
  modifySession fun s => { s with listener := some listener }

/-- Stops the timers, forgets all exchanges and closes the transport. -/
def dispose (h : Host ω) : Action κ ω Unit := do
  modifySession fun s =>
    { s with timers := none, endpoint := ⟨s.endpoint.dedup.clear, s.endpoint.exchanges.clear⟩ }
  match ← call h.closeTransport with
  | .error reason => note (.closeFailed reason)
  | .ok () => pure ()

end Coap.Session.Action
