import Coap.Dedup
import Coap.Effect
import Coap.Exchanges.Sweep
import Coap.Handler

/-! Handling of a message that was received: what becomes of the ids seen and of the exchanges,
and the one message, if any, that goes back. The application keeps its state in a world `ω`. -/
namespace Coap

/-- Answers a request, or fails for a reason. -/
abbrev Application (ω : Type) := Method → Message → ω → Except String Message × ω

structure Endpoint (κ : Type) where
  dedup : Dedup
  exchanges : Exchanges κ

/-- What handling a message comes to. -/
structure Turn (κ ω : Type) where
  endpoint : Endpoint κ
  world : ω
  reply : Option Message
  /-- In the order in which they happened. -/
  effects : List (Effect κ)

namespace Endpoint

variable {κ ω : Type}

def new (config : Config) (lastId : MessageId) : Endpoint κ :=
  ⟨{ lifetime := config.exchangeLifetime }, .new config lastId⟩

def isDuplicate (e : Endpoint κ) (m : Message) : Bool :=
  m.type == .confirmable && e.dedup.contains m.id

/-- Confirmable messages are remembered, others are not. -/
def remember (e : Endpoint κ) (m : Message) (now : Millis) : Endpoint κ :=
  if m.type = .confirmable then { e with dedup := e.dedup.remember m.id now } else e

def forget (e : Endpoint κ) (m : Message) : Endpoint κ :=
  if m.type = .confirmable then { e with dedup := e.dedup.forget m.id } else e

/-- A ping is answered with a reset. -/
def ping (m : Message) (e : Endpoint κ) (w : ω) : Turn κ ω :=
  ⟨e, w, some m.rejection, [.noted (.pong m)]⟩

/-- A reset ends the exchange of its id. -/
def reset (m : Message) (e : Endpoint κ) (w : ω) : Turn κ ω :=
  ⟨⟨e.dedup.forget m.id, e.exchanges.cancel m.id⟩, w, none, [.noted (.peerReset m)]⟩

def suppressed (request answer : Message) : Bool :=
  match request.noResponse? with
  | some mask => mask.suppresses answer.code
  | none => false

/-- The application's answer goes back under the request's token: on the acknowledgement of a
confirmable request, else under the next id. -/
def reply (request answer : Message) (e : Endpoint κ) : Message × Endpoint κ :=
  if request.type = .confirmable then
    ({ answer with token := request.token, type := .acknowledgement, id := request.id }, e)
  else
    let (id, exchanges) := e.exchanges.allocate
    ({ answer with token := request.token, type := .nonConfirmable, id }, { e with exchanges })

/-- What follows on an answer of the application, given the endpoint that remembers the request.
A request that failed may come again. -/
def conclude (method : Method) (request : Message) (answer : Except String Message)
    (e : Endpoint κ) (w : ω) : Turn κ ω :=
  match answer with
  | .error reason =>
    ⟨e.forget request, w, none,
      [.asked method request, .noted (.requestFailed method request reason)]⟩
  | .ok answer =>
    if suppressed request answer then
      ⟨e, w, if request.type = .confirmable then some (request.ack request.id) else none,
        [.asked method request, .noted (.responseSuppressed answer.code)]⟩
    else
      let (reply, e) := e.reply request answer
      ⟨e, w, some reply, [.asked method request]⟩

/-- A duplicate is acknowledged without asking the application. -/
def request (app : Application ω) (now : Millis) (method : Method) (m : Message)
    (e : Endpoint κ) (w : ω) : Turn κ ω :=
  if e.isDuplicate m then ⟨e, w, some (m.ack m.id), [.noted (.duplicateRequest m)]⟩
  else
    let (answer, w) := app method m w
    conclude method m answer (e.remember m now) w

/-- Hands a response to whoever waits for its token. -/
def deliver (m : Message) (e : Endpoint κ) : Endpoint κ × List (Effect κ) :=
  match e.exchanges.deliver m.token with
  | some (callback, exchanges) =>
    ({ e with exchanges }, callback.toList.map fun c => .delivered c m)
  | none => (e, [.noted (.unawaited m)])

/-- Stops the message that an acknowledgement names. -/
def acknowledged (m : Message) (e : Endpoint κ) : Endpoint κ × List (Effect κ) :=
  if m.type = .acknowledgement ∧ e.exchanges.retries.contains m.id then
    ({ e with exchanges := e.exchanges.acknowledge m.id }, [.noted (.acknowledged m.id)])
  else (e, [])

/-- A confirmable response is acknowledged each time and delivered the first time. -/
def response (now : Millis) (m : Message) (e : Endpoint κ) (w : ω) : Turn κ ω :=
  let (e, first) := e.acknowledged m
  match m.kind with
  | .empty =>
    ⟨e, w, none, first ++ if m.type = .acknowledgement then [] else [.noted (.ignored m)]⟩
  | .request => ⟨e, w, none, first ++ [.noted (.unsupportedMethod m)]⟩
  | .response =>
    let reply := if m.type = .confirmable then some (m.ack m.id) else none
    if e.isDuplicate m then ⟨e, w, reply, first ++ [.noted (.duplicateResponse m)]⟩
    else
      let (e, effects) := (e.remember m now).deliver m
      ⟨e, w, reply, first ++ effects⟩

/-- Handles a message as a handler does. A request handler asks the application only about
requests. -/
def handleAs (handler : Handler) (app : Application ω) (now : Millis) (m : Message)
    (e : Endpoint κ) (w : ω) : Turn κ ω :=
  match handler, m.kind with
  | .ping, _ => e.ping m w
  | .request method, .request => e.request app now method m w
  | .reset, _ => e.reset m w
  | _, _ => e.response now m w

def handle (app : Application ω) (now : Millis) (m : Message) (e : Endpoint κ) (w : ω) :
    Turn κ ω :=
  e.handleAs (Handler.ofMessage m) app now m w

end Endpoint
end Coap
