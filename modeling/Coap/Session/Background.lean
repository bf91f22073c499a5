import Coap.Session.Upkeep

/-! Background timers: they do the upkeep without being asked. A failure is noted and goes no
further; the timer of a sweep is disarmed when its table is empty. -/
namespace Coap.Session.Action

variable {κ ω : Type}

/-- Starts the timers, the sweeps' armed where there is work. -/
def start : Action κ ω Unit := do
  modifySession fun s =>
    { s with timers := some { keepalive := s.config.keepalive.map fun _ => { armed := true } } }
  armTimers

/-- Notes a failure instead of failing. -/
def noted (a : Action κ ω Unit) : Action κ ω Unit := do
  match ← outcome a with
  | .error failure => note (.background failure)
  | .ok () => pure ()

/-- Does work at the present time. -/
def atPresent (h : Host ω) (work : Millis → Action κ ω Unit) : Action κ ω Unit :=
  noted do work (← now h .sweeping)

/-- A tick of the timer that sweeps the ids seen. -/
def dedupTick (h : Host ω) : Action κ ω Unit := do
  match (← session).timers with
  | some { dedup := { armed := true, .. }, .. } =>
    atPresent h sweepDedup
    modifySession fun s =>
      if s.endpoint.dedup.isEmpty then
        { s with timers := s.timers.map fun t => { t with dedup := t.dedup.disarm } }
      else s
  | _ => pure ()

/-- A tick of the timer that sweeps the exchanges. -/
def exchangesTick (h : Host ω) : Action κ ω Unit := do
  match (← session).timers with
  | some { exchanges := { armed := true, .. }, .. } =>
    atPresent h (sweepExchanges h)
    modifySession fun s =>
      if s.endpoint.exchanges.isIdle then
        { s with timers := s.timers.map fun t => { t with exchanges := t.exchanges.disarm } }
      else s
  | _ => pure ()

/-- A tick of the keepalive timer, which is always armed. -/
def keepaliveTick (h : Host ω) : Action κ ω Unit := do
  match (← session).timers with
  | some { keepalive := some { armed := true, .. }, .. } => atPresent h (keepalive h)
  | _ => pure ()

/-- One tick of each timer. -/
def round (h : Host ω) : Action κ ω Unit := do
  dedupTick h
  exchangesTick h
  keepaliveTick h

/-- Rounds until one leaves no effect, at most `limit`. -/
def rounds (h : Host ω) : Nat → Action κ ω Unit
  | 0 => pure ()
  | limit + 1 => do
    let before := (← get).history.length
    round h
    if before < (← get).history.length then rounds h limit

/-- Lets the timers tick at a standing clock until they have nothing left to do. Each message
takes at most one round for each of its retransmissions and one to be given up, and so does a
ping that a first round sends. -/
def settle (h : Host ω) : Action κ ω Unit := do
  rounds h (2 * ((← session).config.maxRetransmit + 3))

end Coap.Session.Action
