import Coap.Session.Basic

/-! Requests that go out. -/
namespace Coap.Session.Action

variable {κ ω : Type}

/-- A token for a message that has none. -/
def ensureToken (m : Message) : Action κ ω Message := do
  if m.token.isEmpty then
    let s ← session
    let (token, tokens) := s.tokens.nextToken
    modifySession fun s => { s with tokens }
    return { m with token }
  else return m

/-- Registers a request under a fresh id. -/
def register (m : Message) (delivery : Delivery κ) (now : Millis) :
    Action κ ω (Option MessageId) := do
  let s ← session
  let (id?, exchanges) := s.endpoint.exchanges.register m.token delivery now
  modifySession (·.setExchanges exchanges)
  return id?

def schedule (m : Message) (now : Millis) : Action κ ω Unit :=
  modifySession fun s => s.setExchanges (s.endpoint.exchanges.schedule m now)

def cancel (id : MessageId) : Action κ ω Unit :=
  modifySession fun s => s.setExchanges (s.endpoint.exchanges.cancel id)

/-- Registers a request and sends it. A request that cannot be sent is cancelled. -/
def sendCorrelated (h : Host ω) (m : Message) (delivery : Delivery κ) :
    Action κ ω (MessageId × Token) := do
  let m ← ensureToken m
  let now ← now h (.sending m.id m.token)
  match ← register m delivery now with
  | none => throw ⟨.idsExhausted, .sending m.id m.token⟩
  | some id =>
    let m := { m with id }
    schedule m now
    match ← outcome (send h m (.sending m.id m.token)) with
    | .error failure =>
      cancel m.id
      throw failure
    | .ok () =>
      postponePing now
      armTimers
      return (m.id, m.token)

/-- Sends a request, whose first response goes to the callback if there is one. -/
def sendRequest (h : Host ω) (m : Message) (callback : Option κ) : Action κ ω MessageId :=
  return (← sendCorrelated h m (.once callback)).1

/-- Asks to observe a resource; every response with the token goes to the callback. -/
def observe (h : Host ω) (m : Message) (callback : κ) : Action κ ω Token :=
  return (← sendCorrelated h (m.setObserve true) (.observer callback)).2

/-- Stops delivery under a token, and says whether there was any. -/
def unobserve (token : Token) : Action κ ω Bool := do
  let s ← session
  modifySession fun s => s.setExchanges (s.endpoint.exchanges.unobserve token)
  return s.endpoint.exchanges.observers.contains token

end Coap.Session.Action
