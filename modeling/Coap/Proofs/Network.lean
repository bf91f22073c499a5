import Coap.Proofs.Mirror

/-!
A client and a server over a network that loses, duplicates, delays and reorders datagrams, and
neither forges nor alters them: whatever one side has sent may reach the other side at any later
time, any number of times or never. The client sends requests, receives and ticks; the server
receives and ticks. Each step is the session's own operation.

The calls, the answers and the times of arrival are kept for the statements only.
-/
namespace Coap

variable {κ ω κ' ω' : Type}

/-- A request that the application answered. -/
structure Answer where
  request : Message
  reply : Message
  deriving DecidableEq

/-- The application's answers are written down, newest first. -/
def Host.recording (h : Host ω) : Host (ω × List Answer) where
  tickUnit := h.tickUnit
  readClock w := let (ticks, w') := h.readClock w.1; (ticks, w', w.2)
  openTransport w := let (r, w') := h.openTransport w.1; (r, w', w.2)
  closeTransport w := let (r, w') := h.closeTransport w.1; (r, w', w.2)
  transmit b w := let (r, w') := h.transmit b w.1; (r, w', w.2)
  collect size w := let (r, w') := h.collect size w.1; (r, w', w.2)
  backlog w := h.backlog w.1
  application method m w :=
    match h.application method m w.1 with
    | (.error reason, w') => (.error reason, w', w.2)
    | (.ok reply, w') => (.ok reply, w', ⟨m, reply⟩ :: w.2)
  credentialsRequired := h.credentialsRequired
  authenticate tokenType token w := let (r, w') := h.authenticate tokenType token w.1; (r, w', w.2)

theorem Host.recording_keeps (h : Host ω) : h.recording.Keeps Prod.snd :=
  ⟨fun _ => rfl, fun _ => rfl, fun _ _ => rfl, fun _ _ _ => rfl⟩

/-- Apart from the log, nothing changes. -/
theorem Host.recording_mirrors (h : Host ω) : h.recording.Mirrors h Prod.fst := by
  refine ⟨rfl, rfl, fun _ => rfl, fun _ => rfl, fun _ _ => rfl, ?_, fun _ _ _ => rfl⟩
  intro method m w
  simp only [recording]
  rcases h.application method m w.1 with ⟨_ | reply, w'⟩ <;> rfl

theorem Host.now_recording (h : Host ω) (w : ω × List Answer) :
    (h.recording.now w).1 = (h.now w.1).1 :=
  (congrArg Prod.fst (h.recording_mirrors.now w)).symm

theorem Session.create_recording (h : Host ω) (config : Config) (w : ω) :
    create (κ := κ) h config w =
      ((create (κ := κ) h.recording config (w, [])).1,
        (create (κ := κ) h.recording config (w, [])).2.1) :=
  h.recording_mirrors.create config (w, [])

/-- A request that the client was told to send, with the token that it got. -/
structure Call (κ : Type) where
  request : Message
  callback : Option κ
  outcome : Except Failure MessageId

/-- The request goes out under the id that it got, and the message is what a peer reads. -/
def Call.Reads (q : Call κ) (m : Message) : Prop :=
  ∃ id b, q.outcome = .ok id ∧ { q.request with id }.write = .ok b ∧ Message.read b = .ok m

structure Network (κ ω κ' ω' : Type) where
  client : Session.Live κ ω
  server : Session.Live κ' (ω' × List Answer)
  /-- Newest first. -/
  calls : List (Call κ) := []
  /-- When the server first received each request. -/
  arrivals : List (Message × Millis) := []
  /-- What the server's clock was last seen to say. -/
  time : Millis := 0

/-- The response, if the effect is that the callback is called. -/
def Effect.response? [DecidableEq κ] (c : κ) : Effect κ → Option Message
  | .delivered callback response => if callback = c then some response else none
  | _ => none

theorem Effect.response?_eq_some_iff [DecidableEq κ] {c : κ} {e : Effect κ} {r : Message} :
    e.response? c = some r ↔ e = .delivered c r := by
  cases e with
  | delivered c' r' =>
    by_cases hc : c' = c
    · simp only [response?, hc, if_true, Option.some.injEq, delivered.injEq, true_and]
    · simp only [response?, hc, if_false, delivered.injEq, false_and, reduceCtorEq]
  | _ => simp only [response?, reduceCtorEq]

theorem Effect.filterMap_response?_eq_nil_iff [DecidableEq κ] {c : κ} {es : List (Effect κ)} :
    es.filterMap (response? c) = [] ↔ ∀ r, .delivered c r ∉ es := by
  rw [List.filterMap_eq_nil_iff]
  constructor
  · intro hnone r hr
    have hsome : (Effect.delivered c r).response? c = some r := response?_eq_some_iff.2 rfl
    rw [hnone _ hr] at hsome
    cases hsome
  · intro hnever e he
    rw [Option.eq_none_iff_forall_ne_some]
    intro r hr
    rw [response?_eq_some_iff.1 hr] at he
    exact hnever r he

namespace Network

def answers (n : Network κ ω κ' ω') : List Answer := n.server.world.2

def answersTo (n : Network κ ω κ' ω') (q : Call κ) : List Answer :=
  n.answers.filter fun a => a.request.token = q.request.token

/-- What a callback was called with. -/
def deliveries [DecidableEq κ] (n : Network κ ω κ' ω') (c : κ) : List Message :=
  n.client.history.filterMap (Effect.response? c)

theorem mem_deliveries [DecidableEq κ] {n : Network κ ω κ' ω'} {c : κ} {r : Message} :
    r ∈ n.deliveries c ↔ .delivered c r ∈ n.client.history := by
  rw [deliveries, List.mem_filterMap]
  simp only [Effect.response?_eq_some_iff, exists_eq_right]

/-- What the server's clock says. -/
def reading (h : Host ω') (n : Network κ ω κ' ω') : Option Millis :=
  (h.now n.server.world.1).1.toOption

def call (h : Host ω) (m : Message) (callback : Option κ) (n : Network κ ω κ' ω') :
    Network κ ω κ' ω' :=
  let (outcome, client) := Session.Action.sendRequest h m callback n.client
  let request := { m with token := n.client.session.tokenFor m }
  { n with client, calls := ⟨request, callback, outcome⟩ :: n.calls }

def clientReceive (h : Host ω) (datagram : Bytes) (n : Network κ ω κ' ω') : Network κ ω κ' ω' :=
  { n with client := (Session.Action.receive h datagram n.client).2 }

def clientTick (h : Host ω) (n : Network κ ω κ' ω') : Network κ ω κ' ω' :=
  { n with client := (Session.Action.tick h n.client).2 }

/-- Only the first arrival of a request is written down. -/
def arrive (datagram : Bytes) (now : Millis) (arrivals : List (Message × Millis)) :
    List (Message × Millis) :=
  match Message.read datagram with
  | .error _ => arrivals
  | .ok m =>
    if m.kind = .request ∧ ∀ a ∈ arrivals, a.1 ≠ m then (m, now) :: arrivals else arrivals

def serverReceive (h : Host ω') (datagram : Bytes) (n : Network κ ω κ' ω') :
    Network κ ω κ' ω' :=
  { n with
    server := (Session.Action.receive h.recording datagram n.server).2
    arrivals := match n.reading h with
      | some now => arrive datagram now n.arrivals
      | none => n.arrivals
    time := (n.reading h).getD n.time }

def serverTick (h : Host ω') (n : Network κ ω κ' ω') : Network κ ω κ' ω' :=
  { n with
    server := (Session.Action.tick h.recording n.server).2
    time := (n.reading h).getD n.time }

/-- The server does what it does without the log. -/
theorem serverReceive_map (h : Host ω') (datagram : Bytes) (n : Network κ ω κ' ω') :
    (n.serverReceive h datagram).server.map Prod.fst =
      (Session.Action.receive h datagram (n.server.map Prod.fst)).2 :=
  (congrArg Prod.snd (Session.Action.receive_mirrors h.recording_mirrors datagram n.server)).symm

theorem serverTick_map (h : Host ω') (n : Network κ ω κ' ω') :
    (n.serverTick h).server.map Prod.fst =
      (Session.Action.tick h (n.server.map Prod.fst)).2 :=
  (congrArg Prod.snd (Session.Action.tick_mirrors h.recording_mirrors n.server)).symm

/-- One step of either side. The client's requests are confirmable, have a known method, and
differ in their tokens; each has a callback of its own. The server's clock does not run backwards,
and it does not tick when the lifetime of a request that arrived is over. -/
inductive Step (client : Host ω) (server : Host ω') (n : Network κ ω κ' ω') :
    Network κ ω κ' ω' → Prop
  | call (m : Message) (callback : Option κ) (htype : m.type = .confirmable)
      (hmethod : m.code.method?.isSome)
      (htoken : ∀ q ∈ n.calls, q.request.token ≠ n.client.session.tokenFor m)
      (hcallback : ∀ q ∈ n.calls, ∀ c, q.callback = some c → callback ≠ some c) :
      Step client server n (n.call client m callback)
  | clientReceive (datagram : Bytes) (hsent : .sent datagram ∈ n.server.history) :
      Step client server n (n.clientReceive client datagram)
  | clientTick : Step client server n (n.clientTick client)
  | serverReceive (datagram : Bytes) (hsent : .sent datagram ∈ n.client.history)
      (htime : ∀ now, n.reading server = some now → n.time ≤ now) :
      Step client server n (n.serverReceive server datagram)
  | serverTick (htime : ∀ now, n.reading server = some now → n.time ≤ now)
      (hlifetime : ∀ now, n.reading server = some now → ∀ a ∈ n.arrivals,
        now < Millis.add a.2 n.server.session.config.exchangeLifetime) :
      Step client server n (n.serverTick server)

/-- The states that a run can reach. The server sends no pings of its own. -/
inductive Reachable (client : Host ω) (server : Host ω') : Network κ ω κ' ω' → Prop
  | start {clientConfig serverConfig : Config} {w w₁ : ω} {w' : ω'} {w₁' : ω' × List Answer}
      {s : Session κ} {s' : Session κ'}
      (hclient : Session.create client clientConfig w = (.ok s, w₁))
      (hserver : Session.create server.recording serverConfig (w', []) = (.ok s', w₁'))
      (hkeepalive : serverConfig.keepalive = none) :
      Reachable client server { client := ⟨s, w₁, []⟩, server := ⟨s', w₁', []⟩ }
  | step {n n' : Network κ ω κ' ω'} (hn : Reachable client server n)
      (hstep : Step client server n n') : Reachable client server n'

end Network
end Coap
