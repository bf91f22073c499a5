import Coap.Host
import Coap.Timer
import Coap.TokenGenerator

/-! A session with one peer: its state, and the actions by which it changes. An action runs in a
world, leaves a history of effects, and keeps what it changed also where it fails. -/
namespace Coap

/-- Who the peer authenticated as. -/
structure Identity where
  tokenType : String
  token : String
  /-- The index pairs presented with the credential. -/
  indexes : List (String × String)
  deriving DecidableEq

/-- What came of the credentials that were presented. -/
structure AuthState where
  authenticated : Bool := false
  identity : Option Identity := none
  deriving DecidableEq

/-- The timers of the background work. Those of the sweeps are armed while there is work. -/
structure Timers where
  dedup : Timer := {}
  exchanges : Timer := {}
  keepalive : Option Timer := none
  deriving DecidableEq

structure Session (κ : Type) where
  config : Config
  endpoint : Endpoint κ
  tokens : TokenGenerator
  /-- When the next ping is due, if silence lasts. -/
  pingDue : Millis
  /-- Who is told of messages that were never acknowledged. -/
  listener : Option κ := none
  auth : AuthState := {}
  timers : Option Timers := none

namespace Session

/-- A session at work in a world. -/
structure Live (κ ω : Type) where
  session : Session κ
  world : ω
  /-- Newest first. -/
  history : List (Effect κ) := []

abbrev Action (κ ω : Type) := ExceptT Failure (StateM (Live κ ω))

variable {κ ω : Type}

def isAuthenticated (s : Session κ) : Bool := s.auth.authenticated

def identity (s : Session κ) : Option Identity := s.auth.identity

def setDedup (s : Session κ) (dedup : Dedup) : Session κ :=
  { s with endpoint := { s.endpoint with dedup } }

def setExchanges (s : Session κ) (exchanges : Exchanges κ) : Session κ :=
  { s with endpoint := { s.endpoint with exchanges } }

/-- Opens the transport and begins at an id drawn from the generator. -/
def create (h : Host ω) (config : Config) (w : ω) : Except Failure (Session κ) × ω :=
  match h.now w with
  | (.error cause, w) => (.error ⟨cause, .lifecycle⟩, w)
  | (.ok now, w) =>
    match h.openTransport w with
    | (.error reason, w) => (.error ⟨.transport reason, .lifecycle⟩, w)
    | (.ok (), w) =>
      let (lastId, tokens) := (TokenGenerator.new config now).nextId
      (.ok { config, endpoint := .new config lastId, tokens,
             pingDue := Millis.add now (config.keepalive.getD 0) }, w)

namespace Action

def session : Action κ ω (Session κ) := return (← get).session

def modifySession (f : Session κ → Session κ) : Action κ ω Unit :=
  modify fun l => { l with session := f l.session }

/-- Calls on the surroundings. -/
def call (f : ω → α × ω) : Action κ ω α :=
  modifyGet fun l =>
    let (a, world) := f l.world
    (a, { l with world })

def emit (effects : List (Effect κ)) : Action κ ω Unit :=
  modify fun l => { l with history := effects.reverse ++ l.history }

def note (n : Notice) : Action κ ω Unit := emit [.noted n]

/-- The outcome of an action, as a value. -/
def outcome (a : Action κ ω α) : Action κ ω (Except Failure α) :=
  fun l =>
    let (r, l) := a l
    (.ok r, l)

def now (h : Host ω) (during : Activity) : Action κ ω Millis := do
  match ← call h.now with
  | .ok now => return now
  | .error cause => throw ⟨cause, during⟩

/-- Traffic was seen: the next ping waits for a new silence. -/
def postponePing (now : Millis) : Action κ ω Unit :=
  modifySession fun s =>
    match s.config.keepalive with
    | some interval => { s with pingDue := Millis.add now interval }
    | none => s

/-- Arms the timers whose tables have work in them. -/
def armTimers : Action κ ω Unit :=
  modifySession fun s =>
    match s.timers with
    | none => s
    | some t =>
      let dedup := if s.endpoint.dedup.isEmpty then t.dedup else t.dedup.arm
      let exchanges := if s.endpoint.exchanges.isIdle then t.exchanges else t.exchanges.arm
      { s with timers := some { t with dedup, exchanges } }

/-- Hands a message to the transport. -/
def send (h : Host ω) (m : Message) (during : Activity) : Action κ ω Unit := do
  match m.write with
  | .error cause => throw ⟨.unwritable cause, during⟩
  | .ok datagram =>
    match ← call (h.transmit datagram) with
    | .error reason => throw ⟨.transport reason, during⟩
    | .ok () => emit [.sent datagram, .noted (.sent m)]

end Action
end Session
end Coap
