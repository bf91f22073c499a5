import Coap.Proofs.Aftermath

/-!
# A silence is broken by a ping

A session that is to be kept alive pings its peer once nothing was seen for the interval. Seen is
what comes in, a request that goes out, traffic that the session is told of, and a ping, whether or
not it goes out; a reply and a message that is sent again are not.
-/
namespace Coap

variable {κ ω : Type}

/-- The ping under an id: the empty confirmable message, without token, options and payload. -/
structure Message.IsPing (m : Message) (id : MessageId) : Prop where
  version : m.version = 1
  type : m.type = .confirmable
  code : m.code = ⟨0, 0⟩
  id : m.id = id
  token : m.token.bytes = []
  options : m.options.entries = []
  payload : m.payload = []

/-- The id of the ping that was begun. -/
def Effect.ping? : Effect κ → Option MessageId
  | .noted (.pinging id) => some id
  | _ => none

namespace Session

/-- The pings that were begun, newest first. -/
def Live.pings (l : Live κ ω) : List MessageId := l.history.filterMap Effect.ping?

/-- A ping is due at the same time. -/
structure DueLike (s s' : Session κ) : Prop where
  config : s'.config = s.config
  pingDue : s'.pingDue = s.pingDue

namespace DueLike

variable {s s' s'' : Session κ}

theorem refl (s : Session κ) : s.DueLike s := ⟨rfl, rfl⟩

theorem trans (h : s.DueLike s') (h' : s'.DueLike s'') : s.DueLike s'' :=
  ⟨h'.config.trans h.config, h'.pingDue.trans h.pingDue⟩

theorem dueAfter (h : s.DueLike s') (seen : Option Millis) :
    s'.dueAfter seen = s.dueAfter seen := by
  unfold Session.dueAfter
  rw [h.config, h.pingDue]

theorem postponed (h : s.DueLike s') (seen : Option Millis) :
    (s.postponed seen).DueLike (s'.postponed seen) :=
  ⟨h.config, h.dueAfter seen⟩

theorem unseen (h : s.DueLike s') : (s.postponed none).DueLike s' := by
  rwa [postponed_none]

end DueLike

namespace Action

variable {h : Host ω}

/-! ## What begins no ping -/

theorem send_pings (h : Host ω) (m : Message) (during : Activity) :
    Leaves Live.pings (send h m during : Action κ ω Unit) := by
  intro l
  rcases send_cases h m during l with ⟨b, w, -, hsend⟩ | ⟨cause, w, -, hsend⟩ <;> rw [hsend] <;> rfl

theorem sweepDedup_pings (now : Millis) :
    Leaves Live.pings (sweepDedup now : Action κ ω Unit) := by
  intro l
  show Ensures (sweepDedup now) l fun _ l' => l'.pings = l.pings
  simp only [sweepDedup, ensures_bind, ensures_session, ensures_modifySession, ensures_ite]
  split <;> rfl

theorem actOn_pings (h : Host ω) (event : Exchanges.Event) :
    Leaves Live.pings (actOn h event : Action κ ω Unit) := by
  cases event with
  | retry m => exact Leaves.bind (fun _ => rfl) fun _ => send_pings h m _
  | abandoned id token =>
    refine Leaves.bind (fun _ => rfl) fun _ => Leaves.bind (fun _ => rfl) fun s => ?_
    cases s.listener <;> exact fun _ => rfl

theorem forM_actOn_pings (h : Host ω) (events : List Exchanges.Event) :
    Leaves Live.pings (events.forM (actOn h) : Action κ ω Unit) := by
  induction events with
  | nil => exact fun _ => rfl
  | cons event events ih => exact (actOn_pings h event).bind fun _ => ih

theorem sweep_pings (h : Host ω) (now : Millis) :
    Leaves Live.pings (sweep h now : Action κ ω Unit) :=
  (sweepDedup_pings now).bind fun _ =>
    Leaves.bind (fun _ => rfl) fun _ => Leaves.bind (fun _ => rfl) fun _ => forM_actOn_pings h _

/-! ## What begins one -/

theorem pingMessage_isPing (id : MessageId) : (pingMessage id).IsPing id :=
  ⟨rfl, rfl, rfl, rfl, rfl, rfl, rfl⟩

/-- What comes of a ping that is begun in a state: it takes the id behind the last one, is to be
sent again after one timeout, and its four octets are handed to the transport, which takes or
refuses them. -/
def Pings (h : Host ω) (now : Millis) (l : Live κ ω) (r : Except Failure Unit × Live κ ω) : Prop :=
  ∃ (id : MessageId) (ping : Message),
    id.toNat = l.exchanges.lastId.toNat % 65535 + 1 ∧ ping.IsPing id ∧
    r.2.exchanges =
      { l.exchanges with
        lastId := id
        retries := l.exchanges.retries.insert id
          { due := Millis.add now l.exchanges.config.ackTimeout
            attempts := 0
            message := ping } } ∧
    let octets : Bytes := [0x40, 0x00, UInt8.ofNat (id.toNat / 256), UInt8.ofNat (id.toNat % 256)]
    (∃ w, h.transmit octets l.world = (.ok (), w) ∧ r.1 = .ok () ∧ r.2.world = w ∧
        r.2.history = .noted (.sent ping) :: .sent octets :: .noted (.pinging id) :: l.history) ∨
      ∃ reason w, h.transmit octets l.world = (.error reason, w) ∧
        r.1 = .error ⟨.transport reason, .keepingAlive⟩ ∧ r.2.world = w ∧
        r.2.history = .noted (.pinging id) :: l.history

/-- A ping is begun once, and under the next id. -/
theorem Pings.pings {now : Millis} {l : Live κ ω} {r : Except Failure Unit × Live κ ω}
    (hpings : Pings h now l r) : r.2.pings = l.exchanges.lastId.next :: l.pings := by
  obtain ⟨id, ping, hid, -, -, hhanded⟩ := hpings
  have hnext : id = l.exchanges.lastId.next :=
    UInt16.toNat_inj.1 (hid.trans (MessageId.toNat_next _).symm)
  rw [Live.pings, ← hnext]
  rcases hhanded with ⟨w, -, -, -, hhistory⟩ | ⟨reason, w, -, -, -, hhistory⟩
  · rw [hhistory]
    rfl
  · rw [hhistory]
    rfl

theorem ping_pings (h : Host ω) (interval now : Millis) (l : Live κ ω) :
    Pings h now l (ping h interval now l) := by
  refine ⟨l.exchanges.lastId.next, pingMessage l.exchanges.lastId.next, MessageId.toNat_next _,
    pingMessage_isPing _, ?_, ?_⟩
  · rw [Live.exchanges, ping_session h interval now l]
    rfl
  · rw [ping_eq]
    rcases send_cases h (pingMessage l.exchanges.allocate.1) .keepingAlive _ with
      ⟨octets, w, htakes, hsend⟩ | ⟨cause, w, hrefuses, hsend⟩ <;> rw [hsend]
    · cases htakes.write
      exact .inl ⟨w, htakes.transmit, rfl, rfl, rfl⟩
    · cases hrefuses with
      | unwritable hwrite => cases hwrite
      | untaken hwrite htransmit =>
        cases hwrite
        exact .inr ⟨_, w, htransmit, rfl, rfl, rfl⟩

theorem keepalive_pings_iff (h : Host ω) (now : Millis) (l : Live κ ω) :
    (Pings h now l (keepalive h now l) ↔
        ∃ interval, l.session.config.keepalive = some interval ∧ l.session.pingDue ≤ now) ∧
      (¬ Pings h now l (keepalive h now l) → keepalive h now l = (.ok (), l)) := by
  rcases keepalive_cases h now l with ⟨interval, hinterval, hdue, hping⟩ | ⟨hearly, hnothing⟩
  · have hpings : Pings h now l (keepalive h now l) := hping ▸ ping_pings h interval now l
    exact ⟨⟨fun _ => ⟨interval, hinterval, hdue⟩, fun _ => hpings⟩, fun hnot => absurd hpings hnot⟩
  · have hnone : ¬ Pings h now l (keepalive h now l) := by
      intro hpings
      have hnew := hpings.pings
      rw [hnothing] at hnew
      exact List.cons_ne_self _ _ hnew.symm
    refine ⟨⟨fun hpings => absurd hpings hnone, ?_⟩, fun _ => hnothing⟩
    rintro ⟨interval, hinterval, hdue⟩
    exact absurd hdue (Nat.not_le.2 (hearly interval hinterval))

end Action

/-! ## What was seen -/

/-- The time at which an operation saw traffic, if it did: that of whatever is received, of a
request that goes out, of a ping, and of traffic that the session is told of. -/
def refresh? (h : Host ω) (l : Live κ ω) (op : Operation κ) : Option Millis :=
  let time := (h.now l.world).1.toOption
  match op with
  | .receive _ | .refreshKeepalive => time
  | .collect => (Action.collected? h l).bind fun (_, l) => (h.now l.world).1.toOption
  | .sendRequest m callback => if (Action.sendRequest h m callback l).1.isOk then time else none
  | .observe m callback => if (Action.observe h m callback l).1.isOk then time else none
  | .tick | .keepaliveTick => if (perform h l op).pings = l.pings then none else time
  | _ => none

/-- The times at which traffic was seen along a run, oldest first. -/
def refreshes (h : Host ω) : Live κ ω → List (Operation κ) → List Millis
  | _, [] => []
  | l, op :: ops => (refresh? h l op).toList ++ refreshes h (perform h l op) ops

/-- A ping was begun at the time and has postponed the next one, or none was begun. -/
def PingsBy (time : Option Millis) (l l' : Live κ ω) : Prop :=
  (l.session.postponed (if l'.pings = l.pings then none else time)).DueLike l'.session

namespace PingsBy

variable {time : Option Millis} {l l₁ l' : Live κ ω}

theorem of_pings (hpings : l'.pings = l.pings) (hdue : l.session.DueLike l'.session) :
    PingsBy time l l' := by
  rw [PingsBy, if_pos hpings]
  exact hdue.unseen

theorem after (hpings : l₁.pings = l.pings) (hdue : l.session.DueLike l₁.session)
    (h : PingsBy time l₁ l') : PingsBy time l l' := by
  rw [PingsBy, hpings] at h
  exact (hdue.postponed _).trans h

end PingsBy

namespace Action

theorem receive_due (h : Host ω) (datagram : Bytes) (l : Live κ ω) :
    (l.session.postponed (h.now l.world).1.toOption).DueLike (receive h datagram l).2.session := by
  obtain ⟨auth, hsession | ⟨endpoint, hsession⟩⟩ := receive_session h datagram l <;> rw [hsession]
  · exact ⟨rfl, rfl⟩
  · exact ⟨rfl, rfl⟩

/-- Only a request that goes out is seen, whatever is made of its id and its token. -/
theorem sendCorrelated_due {α : Type} (h : Host ω) (m : Message) (delivery : Delivery κ)
    (f : MessageId × Token → α) (l : Live κ ω) :
    Ensures (do return f (← sendCorrelated h m delivery)) l fun r l' =>
      (l.session.postponed (if r.isOk then (h.now l.world).1.toOption else none)).DueLike
        l'.session := by
  refine (sendCorrelated_session h m delivery l).bind ?_ ?_
  · rintro _ l' ⟨x, tokens, hsession⟩
    show Session.DueLike _ l'.session
    rw [hsession]
    exact ⟨rfl, rfl⟩
  · rintro _ l' ⟨x, tokens, hsession⟩
    rw [hsession]
    exact DueLike.unseen ⟨rfl, rfl⟩

/-- A ping is begun if it is due. -/
theorem keepalive_due (h : Host ω) (now : Millis) (l : Live κ ω) :
    PingsBy (some now) l (keepalive h now l).2 := by
  rcases keepalive_cases h now l with ⟨interval, hinterval, -, hping⟩ | ⟨-, hnothing⟩
  · have hnew : (ping h interval now l).2.pings ≠ l.pings := by
      rw [(ping_pings h interval now l).pings]
      exact List.cons_ne_self _ _
    rw [PingsBy, hping, if_neg hnew, ping_session]
    exact ⟨rfl, (dueAfter_some hinterval now).symm⟩
  · rw [hnothing]
    exact .of_pings rfl (.refl _)

theorem tick_due (h : Host ω) (l : Live κ ω) :
    PingsBy (h.now l.world).1.toOption l (tick h l).2 := by
  rcases tick_cases h l with ⟨cause, w, -, htick⟩ | ⟨now, w, hclock, hswept⟩
  · rw [htick]
    exact .of_pings rfl (.refl _)
  · have hdue : l.session.DueLike (sweep h now { l with world := w }).2.session := by
      rw [sweep_session]
      exact ⟨rfl, rfl⟩
    have hpings := sweep_pings h now { l with world := w }
    rcases hswept with ⟨f, l', hsweep, htick⟩ | ⟨l', hsweep, htick⟩ <;>
      rw [hsweep] at hdue hpings <;> rw [htick]
    · exact .of_pings hpings hdue
    · rw [hclock]
      exact .after hpings hdue (keepalive_due h now l')

theorem keepaliveTick_due (h : Host ω) (l : Live κ ω) :
    PingsBy (h.now l.world).1.toOption l (keepaliveTick h l).2 := by
  show Ensures (keepaliveTick h) l fun _ l' => PingsBy (h.now l.world).1.toOption l l'
  simp only [keepaliveTick, ensures_bind, ensures_session]
  split
  · refine (ensures_atPresent (fun _ => ?_) (fun now w hclock => ?_) fun _ _ => id).2
    · exact .of_pings rfl (.refl _)
    · rw [hclock]
      exact keepalive_due h now { l with world := w }
  · exact .of_pings rfl (.refl _)

/-- Neither the work of a sweep's timer nor its rest matters. -/
theorem sweepTick_due {work : Millis → Action κ ω Unit} {idle : Session κ → Bool}
    {disarm : Timers → Timers} (l : Live κ ω)
    (hwork : ∀ now (l : Live κ ω), l.session.DueLike (work now l).2.session) :
    Ensures (do
      atPresent h work
      modifySession fun s => if idle s then { s with timers := s.timers.map disarm } else s) l
      fun _ l' => l.session.DueLike l'.session := by
  have hworked : Ensures (atPresent h work) l fun r l' =>
      r = .ok () ∧ l.session.DueLike l'.session :=
    ensures_atPresent (fun _ => .refl _) (fun now w _ => hwork now { l with world := w })
      fun _ _ => id
  refine hworked.bind_ok fun l₁ hl₁ => ?_
  rw [ensures_modifySession]
  split
  · exact ⟨hl₁.config, hl₁.pingDue⟩
  · exact hl₁

theorem dedupTick_due (h : Host ω) (l : Live κ ω) :
    Ensures (dedupTick h) l fun _ l' => l.session.DueLike l'.session := by
  rw [dedupTick, ensures_bind, ensures_session]
  dsimp only
  split
  · refine sweepTick_due l fun now l₁ => ?_
    obtain ⟨-, hsession, -⟩ := sweepDedup_ensures (l := l₁) (v := fun _ => ()) now
    rw [hsession]
    exact ⟨rfl, rfl⟩
  · exact .refl _

theorem exchangesTick_due (h : Host ω) (l : Live κ ω) :
    Ensures (exchangesTick h) l fun _ l' => l.session.DueLike l'.session := by
  rw [exchangesTick, ensures_bind, ensures_session]
  dsimp only
  split
  · refine sweepTick_due l fun now l₁ => ?_
    obtain ⟨hsession, -⟩ := sweepExchanges_ensures (l := l₁) (h.keeps_const ()) now
    rw [hsession]
    exact ⟨rfl, rfl⟩
  · exact .refl _

theorem start_due (l : Live κ ω) : l.session.DueLike (start l).2.session := by
  show Ensures start l fun _ l' => l.session.DueLike l'.session
  rw [start, ensures_bind, ensures_modifySession, ensures_armTimers]
  exact ⟨rfl, rfl⟩

theorem dispose_due (h : Host ω) (l : Live κ ω) :
    Ensures (dispose h) l fun _ l' => l.session.DueLike l'.session := by
  simp only [dispose, ensures_bind, ensures_modifySession, ensures_call]
  cases (h.closeTransport l.world).1 <;> exact ⟨rfl, rfl⟩

end Action

theorem perform_due (h : Host ω) (l : Live κ ω) (op : Operation κ) :
    (l.session.postponed (refresh? h l op)).DueLike (perform h l op).session := by
  cases op with
  | receive datagram => exact Action.receive_due h datagram l
  | collect =>
    rw [refresh?]
    rcases perform_collect h l with ⟨hnone, hsession⟩ | ⟨datagram, world, hsome, hsession⟩
    · rw [hnone, hsession]
      exact (DueLike.refl _).unseen
    · rw [hsome, hsession]
      exact Action.receive_due h datagram { l with world }
  | tick => exact Action.tick_due h l
  | sendRequest m callback => exact Action.sendCorrelated_due h m _ Prod.fst l
  | observe m callback => exact Action.sendCorrelated_due h _ _ Prod.snd l
  | unobserve token => exact DueLike.unseen ⟨rfl, rfl⟩
  | ensureAuthentication m force =>
    obtain ⟨auth, hsession⟩ := Action.ensureAuthentication_session h m force l
    rw [perform, hsession]
    exact DueLike.unseen ⟨rfl, rfl⟩
  | refreshKeepalive =>
    rw [perform, Action.refreshKeepalive_session h l]
    exact ⟨rfl, rfl⟩
  | setListener listener => exact DueLike.unseen ⟨rfl, rfl⟩
  | start => exact (Action.start_due l).unseen
  | dedupTick => exact DueLike.unseen (Action.dedupTick_due h l)
  | exchangesTick => exact DueLike.unseen (Action.exchangesTick_due h l)
  | keepaliveTick => exact Action.keepaliveTick_due h l
  | dispose => exact DueLike.unseen (Action.dispose_due h l)

/-- When a ping is due after a run depends on what was seen last. -/
theorem run_due (h : Host ω) (l : Live κ ω) (ops : List (Operation κ)) :
    (l.session.postponed (refreshes h l ops).getLast?).DueLike (run h l ops).session := by
  induction ops generalizing l with
  | nil => exact (DueLike.refl _).unseen
  | cons op ops ih =>
    have hfirst := perform_due h l op
    have hrest := ih (perform h l op)
    refine ⟨hrest.config.trans hfirst.config, hrest.pingDue.trans ?_⟩
    have hlast : (refreshes h l (op :: ops)).getLast? =
        (refreshes h (perform h l op) ops).getLast?.or (refresh? h l op) := by
      rw [refreshes, List.getLast?_append]
      cases refresh? h l op <;> rfl
    rw [hlast]
    exact (hfirst.dueAfter _).trans (dueAfter_postponed l.session _ _)

/-- A session is created as if traffic were seen at that time. -/
theorem due_of_create {h : Host ω} {config : Config} {s : Session κ} {w w' : ω}
    (hcreate : create h config w = (.ok s, w')) :
    ∃ created, (h.now w).1 = .ok created ∧ s.config = config ∧
      ∀ interval, config.keepalive = some interval → s.pingDue = Millis.add created interval := by
  unfold create at hcreate
  split at hcreate
  · cases hcreate
  · rename_i created w₁ hclock
    split at hcreate
    · cases hcreate
    · cases hcreate
      refine ⟨created, congrArg Prod.fst hclock, rfl, ?_⟩
      intro interval hinterval
      rw [hinterval]
      rfl

/-- **A ping breaks a silence, and nothing else calls for one.** After any run of a session that was
created, a tick whose sweep did not fail pings if and only if pings are asked for and their interval
has passed since traffic was last seen, or since the creation of the session where none was seen.
Otherwise the tick does no more than its sweep. -/
theorem pings_when_silent {h : Host ω} {config : Config} {s : Session κ} {w w' : ω}
    (hcreate : create h config w = (.ok s, w')) (ops : List (Operation κ)) :
    let start : Live κ ω := ⟨s, w', []⟩
    let l := run h start ops
    ∃ created, (h.now w).1 = .ok created ∧
      let seen := (refreshes h start ops).getLast?.getD created
      ∀ now w₁ l₁, h.now l.world = (.ok now, w₁) →
        Action.sweep h now { l with world := w₁ } = (.ok (), l₁) →
        (Action.Pings h now l₁ (Action.tick h l) ↔
          ∃ interval, config.keepalive = some interval ∧ Millis.add seen interval ≤ now) ∧
        (¬ Action.Pings h now l₁ (Action.tick h l) → Action.tick h l = (.ok (), l₁)) := by
  intro start l
  obtain ⟨created, hcreated, hconfig, hfirst⟩ := due_of_create hcreate
  refine ⟨created, hcreated, ?_⟩
  intro seen now w₁ l₁ hclock hsweep
  -- The sweep does not move the time at which a ping is due after the run.
  have hswept : l.session.DueLike l₁.session := by
    have hsession := Action.ensures_of_eq (Action.sweep_session h now { l with world := w₁ }) hsweep
    rw [hsession]
    exact ⟨rfl, rfl⟩
  have hdue : (s.postponed (refreshes h start ops).getLast?).DueLike l₁.session :=
    (run_due h start ops).trans hswept
  have hconfig₁ : l₁.session.config = config := hdue.config.trans hconfig
  have hpingDue : ∀ interval, config.keepalive = some interval →
      l₁.session.pingDue = Millis.add seen interval := by
    intro interval hinterval
    have hlast : l₁.session.pingDue = s.dueAfter (refreshes h start ops).getLast? := hdue.pingDue
    rw [hlast]
    show _ = Millis.add ((refreshes h start ops).getLast?.getD created) interval
    cases (refreshes h start ops).getLast? with
    | none => exact (dueAfter_none s).trans (hfirst interval hinterval)
    | some time => exact dueAfter_some (hconfig ▸ hinterval) time
  obtain ⟨hpings, hnothing⟩ := Action.keepalive_pings_iff h now l₁
  rw [Action.tick_of_swept hclock hsweep]
  refine ⟨hpings.trans (exists_congr fun interval => ?_), hnothing⟩
  rw [hconfig₁]
  exact and_congr_right fun hinterval => by rw [hpingDue interval hinterval]

def sampleSilence : Config := { keepalive := some 1500 }

def sampleWakeful : Session Unit where
  config := sampleSilence
  endpoint := .new sampleSilence (TokenGenerator.new sampleSilence 1000).nextId.1
  tokens := (TokenGenerator.new sampleSilence 1000).nextId.2
  pingDue := Millis.add 1000 1500

/-- What was received at 2000 makes a ping due at 3500: the tick at 3000 begins none, and at 4000
its four octets go out. Where the transport takes nothing it fails, and yet the tick at 5000 comes
too early for another. -/
theorem pings_when_silent_samples :
    let start : Live Unit Nat := ⟨sampleWakeful, 2000, []⟩
    let pings (h : Host Nat) (ops : List (Operation Unit)) (now : Millis) : Prop :=
      let l := run h start ops
      Action.Pings h now (Action.sweep h now { l with world := now + 1000 }).2 (Action.tick h l)
    let received : Operation Unit := .receive [80, 1, 0, 1]
    create sampleHost sampleSilence 1000 = (.ok sampleWakeful, 2000) ∧
      create deafHost sampleSilence 1000 = (.ok sampleWakeful, 2000) ∧
      ¬ pings sampleHost [received] 3000 ∧
      pings sampleHost [received, .tick] 4000 ∧
      .sent [0x40, 0, 175, 145] ∈ (run sampleHost start [received, .tick, .tick]).history ∧
      pings deafHost [received, .tick] 4000 ∧
      (Action.tick deafHost (run deafHost start [received, .tick])).1 =
        .error ⟨.transport "Broken", .keepingAlive⟩ ∧
      ¬ pings deafHost [received, .tick, .tick] 5000 := by
  intro start pings received
  have hnow : sampleHost.now 1000 = (.ok 1000, 2000) := by decide +kernel
  have hcreate : create sampleHost sampleSilence 1000 = (.ok sampleWakeful, 2000) :=
    create_of_now hnow rfl
  have hdeaf : create deafHost sampleSilence 1000 = (.ok sampleWakeful, 2000) :=
    create_of_now (h := deafHost) hnow rfl
  have hiff : ∀ (h : Host Nat) ops now seen,
      create h sampleSilence 1000 = (.ok sampleWakeful, 2000) →
      h.now (run h start ops).world = (.ok now, now + 1000) →
      (Action.sweep h now { run h start ops with world := now + 1000 }).1 = .ok () →
      (refreshes h start ops).getLast? = some seen →
      (pings h ops now ↔ Millis.add seen 1500 ≤ now) := by
    intro h ops now seen hcreate hclock hsweep hseen
    obtain ⟨created, -, htick⟩ := pings_when_silent hcreate ops
    rw [hseen] at htick
    obtain ⟨hpings, -⟩ := htick now _ _ hclock (Prod.ext hsweep rfl)
    refine hpings.trans ⟨?_, fun hdue => ⟨1500, rfl, hdue⟩⟩
    rintro ⟨interval, hinterval, hdue⟩
    cases hinterval
    exact hdue
  have hearly := hiff sampleHost [received] 3000 2000 hcreate (by decide +kernel)
    (by decide +kernel) (by decide +kernel)
  have hdue := hiff sampleHost [received, .tick] 4000 2000 hcreate (by decide +kernel)
    (by decide +kernel) (by decide +kernel)
  have hfails := hiff deafHost [received, .tick] 4000 2000 hdeaf (by decide +kernel)
    (by decide +kernel) (by decide +kernel)
  have hagain := hiff deafHost [received, .tick, .tick] 5000 4000 hdeaf (by decide +kernel)
    (by decide +kernel) (by decide +kernel)
  exact ⟨hcreate, hdeaf, hearly.not.2 (by decide), hdue.2 (by decide), by decide +kernel,
    hfails.2 (by decide), by decide +kernel, hagain.not.2 (by decide)⟩

end Session
end Coap
