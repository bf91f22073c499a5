import Coap.Config
import Coap.Message.Basic
import Std.Data.ExtTreeMap

/-! The exchanges that an endpoint began: requests that wait for a response, observers, and
confirmable messages that wait for an acknowledgement. Callbacks are named by `κ`. -/
namespace Coap

/-- A request that waits for its first response. -/
structure Pending (κ : Type) where
  token : Token
  expiry : Millis
  callback : Option κ
  deriving DecidableEq

/-- A confirmable message that is sent again until it is acknowledged. -/
structure Retry where
  due : Millis
  attempts : Nat
  message : Message
  deriving DecidableEq

/-- How responses to a request are delivered. -/
inductive Delivery (κ : Type) where
  /-- The first response, if anybody cares, and no other. -/
  | once (callback : Option κ)
  /-- Every response, until the observer is removed. -/
  | observer (callback : κ)
  deriving DecidableEq

/-- The callback that waits for the first response only. -/
def Delivery.callback? {κ : Type} : Delivery κ → Option κ
  | once callback => callback
  | observer _ => none

structure Exchanges (κ : Type) where
  config : Config
  lifetime : Millis
  /-- The id that was given out last. -/
  lastId : MessageId
  pending : Std.ExtTreeMap MessageId (Pending κ) := ∅
  observers : Std.ExtTreeMap Token κ := ∅
  retries : Std.ExtTreeMap MessageId Retry := ∅

namespace Exchanges

variable {κ : Type}

/-- The first id given out is the one after `lastId`. -/
def new (config : Config) (lastId : MessageId) : Exchanges κ :=
  { config, lifetime := config.exchangeLifetime, lastId }

/-- Takes the next id, whether or not it is in use. -/
def allocate (x : Exchanges κ) : MessageId × Exchanges κ :=
  (x.lastId.next, { x with lastId := x.lastId.next })

/-- The first of so many ids after `last` that is not taken, and the last one looked at. -/
def firstFree (taken : MessageId → Bool) : Nat → MessageId → Option MessageId × MessageId
  | 0, last => (none, last)
  | n + 1, last =>
    if taken last.next then firstFree taken n last.next else (some last.next, last.next)

/-- How many ids there are. -/
def idCount : Nat := 65535

def observe (x : Exchanges κ) (token : Token) : Delivery κ → Exchanges κ
  | .once _ => x
  | .observer callback => { x with observers := x.observers.insert token callback }

/-- Registers a request under an id that no pending request has; none if there is no such id. -/
def register (x : Exchanges κ) (token : Token) (delivery : Delivery κ) (now : Millis) :
    Option MessageId × Exchanges κ :=
  match firstFree x.pending.contains idCount x.lastId with
  | (none, lastId) => (none, { x with lastId })
  | (some id, lastId) =>
    let x := { x with lastId }.observe token delivery
    let entry := { token, expiry := Millis.add now x.lifetime, callback := delivery.callback? }
    (some id, { x with pending := x.pending.insert id entry })

/-- The pending request with a token; of several the one with the smallest id. -/
def awaiting? (x : Exchanges κ) (token : Token) : Option (MessageId × Pending κ) :=
  x.pending.toList.find? fun p => p.2.token == token

/-- Finds who waits for a response with this token, and the callback to call. An observer comes
first and stays; a pending request ends, and is not sent again. None if nobody waits. -/
def deliver (x : Exchanges κ) (token : Token) : Option (Option κ × Exchanges κ) :=
  match x.observers[token]? with
  | some callback => some (some callback, x)
  | none =>
    match x.awaiting? token with
    | some (id, p) =>
      some (p.callback,
        { x with pending := x.pending.erase id, retries := x.retries.erase id })
    | none => none

/-- Has a confirmable message sent again from one timeout on; no other message is. -/
def schedule (x : Exchanges κ) (m : Message) (now : Millis) : Exchanges κ :=
  if m.type = .confirmable then
    let retry := { due := Millis.add now x.config.ackTimeout, attempts := 0, message := m }
    { x with retries := x.retries.insert m.id retry }
  else x

/-- Stops sending a message; its request goes on waiting. -/
def acknowledge (x : Exchanges κ) (id : MessageId) : Exchanges κ :=
  { x with retries := x.retries.erase id }

/-- Ends the exchange of an id. -/
def cancel (x : Exchanges κ) (id : MessageId) : Exchanges κ :=
  { x with pending := x.pending.erase id, retries := x.retries.erase id }

/-- Removes an observer; pending requests stay. -/
def unobserve (x : Exchanges κ) (token : Token) : Exchanges κ :=
  { x with observers := x.observers.erase token }

/-- Nothing is left to sweep. -/
def isIdle (x : Exchanges κ) : Bool := x.pending.isEmpty && x.retries.isEmpty

def clear (x : Exchanges κ) : Exchanges κ :=
  { x with pending := ∅, observers := ∅, retries := ∅ }

end Exchanges
end Coap
