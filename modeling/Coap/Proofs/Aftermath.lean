import Coap.Proofs.Run

/-!
# What an action leaves of a session

The state of the session after an action, as an equation. Besides the tables, traffic and pings move
the time at which a ping is due, and work that is put into a table arms its timer. A request that
fails does neither.
-/
namespace Coap.Session

variable {κ ω α : Type}

/-- The session once the timers whose tables have work in them are armed. -/
def armed (s : Session κ) : Session κ :=
  { s with timers := s.timers.map fun t =>
      { t with
        dedup := if s.endpoint.dedup.isEmpty then t.dedup else t.dedup.arm
        exchanges := if s.endpoint.exchanges.isIdle then t.exchanges else t.exchanges.arm } }

/-- When a ping is due if traffic was seen at a time, or was not seen. -/
def dueAfter (s : Session κ) (seen : Option Millis) : Millis :=
  match s.config.keepalive, seen with
  | some interval, some now => Millis.add now interval
  | _, _ => s.pingDue

def postponed (seen : Option Millis) (s : Session κ) : Session κ :=
  { s with pingDue := s.dueAfter seen }

/-- The session once the tables were swept. -/
def swept (now : Millis) (s : Session κ) : Session κ :=
  { s with endpoint := ⟨s.endpoint.dedup.sweep now, (s.endpoint.exchanges.sweep now).2⟩ }

/-- The session once a ping has its id and is to be sent again. -/
def pinging (now : Millis) (s : Session κ) : Session κ :=
  s.setExchanges (s.endpoint.exchanges.allocate.2.schedule
    (Action.pingMessage s.endpoint.exchanges.allocate.1) now)

theorem dueAfter_none (s : Session κ) : s.dueAfter none = s.pingDue := by
  unfold dueAfter
  cases s.config.keepalive <;> rfl

theorem dueAfter_some {s : Session κ} {interval : Millis} (h : s.config.keepalive = some interval)
    (now : Millis) : s.dueAfter (some now) = Millis.add now interval := by
  simp only [dueAfter, h]

theorem postponed_none (s : Session κ) : s.postponed none = s := by
  rw [postponed, dueAfter_none]

/-- What was seen last counts. -/
theorem dueAfter_postponed (s : Session κ) (seen seen' : Option Millis) :
    (s.postponed seen).dueAfter seen' = s.dueAfter (seen'.or seen) := by
  cases seen' with
  | none => exact dueAfter_none _
  | some now =>
    simp only [dueAfter, postponed, Option.some_or]
    cases s.config.keepalive <;> rfl

namespace Action

theorem armTimers_eq (l : Live κ ω) :
    armTimers l = (.ok (), { l with session := l.session.armed }) := by
  obtain ⟨⟨_, _, _, _, _, _, timers⟩, _, _⟩ := l
  cases timers <;> rfl

theorem postponePing_eq (now : Millis) (l : Live κ ω) :
    postponePing now l = (.ok (), { l with session := l.session.postponed (some now) }) := by
  obtain ⟨⟨⟨_, _, _, _, _, _, keepalive⟩, _, _, _, _, _, _⟩, _, _⟩ := l
  cases keepalive <;> rfl

variable {h : Host ω} {l : Live κ ω} {now : Millis} {m : Message}

section
variable {U : Except Failure Unit → Live κ ω → Prop}

theorem ensures_armTimers :
    Ensures armTimers l U ↔ U (.ok ()) { l with session := l.session.armed } := by
  rw [Ensures, armTimers_eq]

theorem ensures_postponePing :
    Ensures (postponePing now) l U ↔
      U (.ok ()) { l with session := l.session.postponed (some now) } := by
  rw [Ensures, postponePing_eq]

end

/-! ## What goes out -/

theorem send_session (h : Host ω) (m : Message) (during : Activity) (l : Live κ ω) :
    Ensures (send h m during) l fun _ l' => l'.session = l.session :=
  (send_ensures (h.keeps_const ()) m during).imp fun _ _ hl' => hl'.1

/-- A request that fails is cancelled, and nothing else of the session changes. -/
theorem transmit_session (h : Host ω) (m : Message) (now : Millis) (l : Live κ ω) :
    Ensures (transmit h m now) l fun r l' => l'.session =
      match r with
      | .error _ => l.session.setExchanges ((l.exchanges.schedule m now).cancel m.id)
      | .ok _ =>
        ((l.session.setExchanges (l.exchanges.schedule m now)).postponed (some now)).armed := by
  unfold transmit
  simp only [schedule, ensures_bind, ensures_modifySession, ensures_outcome]
  apply (send_session h m _ _).imp
  intro r l₁ hl₁
  cases r with
  | error f =>
    simp only [cancel, ensures_bind, ensures_modifySession, ensures_throw, hl₁]
    rfl
  | ok _ =>
    simp only [ensures_bind, ensures_postponePing, ensures_armTimers, ensures_pure, hl₁]

theorem ensureToken_session (m : Message) (l : Live κ ω) :
    Ensures (ensureToken m) l fun r l' =>
      r = .ok { m with token := l.session.tokenFor m } ∧
        ∃ tokens, l' = { l with session := { l.session with tokens } } := by
  rw [ensures_ensureToken]
  split
  · exact ⟨rfl, _, rfl⟩
  · exact ⟨rfl, _, rfl⟩

/-- Only a request that goes out counts as traffic, from the time at which it got its id. -/
theorem sendCorrelated_session (h : Host ω) (m : Message) (delivery : Delivery κ) (l : Live κ ω) :
    Ensures (sendCorrelated h m delivery) l fun r l' => ∃ x tokens,
      let s := { l.session with endpoint := ⟨l.session.endpoint.dedup, x⟩, tokens }
      l'.session =
        match r with
        | .error _ => s
        | .ok _ => (s.postponed (h.now l.world).1.toOption).armed := by
  rw [sendCorrelated_eq]
  refine (ensureToken_session m l).bind_ok ?_
  rintro _ ⟨tokens, rfl⟩
  simp only [ensures_bind, ensures_now]
  cases (h.now l.world).1 with
  | error cause => exact ⟨l.exchanges, tokens, rfl⟩
  | ok now =>
    simp only [Except.mapError, ensures_register]
    generalize l.session.endpoint.exchanges.register _ delivery now = registered
    obtain ⟨id?, x⟩ := registered
    cases id? with
    | none => exact ⟨x, tokens, rfl⟩
    | some id =>
      apply (transmit_session h _ now _).imp
      intro r l' hl'
      cases r with
      | error f => exact ⟨_, tokens, hl'⟩
      | ok _ => exact ⟨_, tokens, hl'⟩

/-! ## What comes in -/

theorem decode_eq (h : Host ω) (datagram : Bytes) (l : Live κ ω) :
    decode h datagram l =
      match h.now l.world with
      | (.error cause, w) => (.error ⟨cause, .receiving⟩, { l with world := w })
      | (.ok now, w) =>
        let l' := { l with session := l.session.postponed (some now), world := w }
        match Message.read datagram with
        | .error cause => (.error ⟨.unreadable cause, .receiving⟩,
            { l' with history := .noted (.discarded datagram.length cause) :: l.history })
        | .ok m => (.ok (now, m), { l' with history := .noted (.received m) :: l.history }) := by
  unfold decode
  rcases hclock : h.now l.world with ⟨cause | now, w⟩
  · rw [bind_of_error (now_of_error hclock _)]
  · rw [bind_of_ok (now_of_ok hclock _), bind_of_ok (postponePing_eq now _)]
    cases Message.read datagram <;> rfl

theorem ensureAuthentication_session (h : Host ω) (m : Message) (force : Bool) (l : Live κ ω) :
    Ensures (ensureAuthentication h m force) l fun _ l' =>
      ∃ auth, l'.session = { l.session with auth } := by
  simp only [ensureAuthentication, ensures_bind, ensures_session, ensures_ite]
  split
  · exact ⟨_, rfl⟩
  · cases Query.ofMessage m with
    | error cause => exact ⟨_, rfl⟩
    | ok q =>
      rcases hcredentials : q.credentials? with _ | ⟨tokenType, token⟩
      · simp only [hcredentials, ensures_ite, ensures_bind, ensures_note, ensures_throw]
        split <;> exact ⟨_, rfl⟩
      · simp only [hcredentials, present, ensures_bind, ensures_emit, ensures_call, ensures_ite,
          ensures_modifySession, ensures_note, ensures_throw]
        split <;> exact ⟨_, rfl⟩

theorem letIn_session (h : Host ω) (datagram : Bytes) (l : Live κ ω) :
    Ensures (letIn h datagram) l fun _ l' =>
      ∃ auth, l'.session = { l.session.postponed (h.now l.world).1.toOption with auth } := by
  have hdecode : Ensures (decode h datagram) l fun _ l' =>
      l'.session = l.session.postponed (h.now l.world).1.toOption := by
    rw [Ensures, decode_eq]
    rcases h.now l.world with ⟨cause | now, w⟩
    · exact (postponed_none l.session).symm
    · cases Message.read datagram <;> rfl
  have hauthorize : ∀ m l₁, Ensures (authorize h m) l₁ fun _ l' =>
      ∃ auth, l'.session = { (l₁ : Live κ ω).session with auth } := by
    intro m l₁
    rw [authorize, ensures_ite]
    split
    · exact ensureAuthentication_session h m false l₁
    · exact ⟨_, rfl⟩
  refine hdecode.bind ?_ fun _ _ hl' => ⟨_, hl'⟩
  rintro ⟨now, m⟩ l₁ hl₁
  rw [← hl₁]
  refine (hauthorize m l₁).bind ?_ fun _ _ hl' => hl'
  exact fun _ _ hl' => hl'

theorem respond_session (h : Host ω) (now : Millis) (m : Message) (l : Live κ ω) :
    Ensures (respond h now m) l fun _ l' => l'.session =
      (l.after (l.session.endpoint.handle h.application now m l.world)).session.armed := by
  unfold respond
  rw [ensures_bind, ensures_handle]
  simp only [ensures_bind, ensures_armTimers]
  cases (l.session.endpoint.handle h.application now m l.world).reply with
  | none => rfl
  | some r =>
    refine (send_session h r _ _).bind ?_ ?_
    · exact fun _ _ hl' => hl'
    · exact fun _ _ hl' => hl'

/-- A datagram that is not handled leaves nothing but the time of the ping and what is known of the
peer. -/
theorem receive_session (h : Host ω) (datagram : Bytes) (l : Live κ ω) :
    ∃ auth, let s := { l.session.postponed (h.now l.world).1.toOption with auth }
      (receive h datagram l).2.session = s ∨
        ∃ endpoint, (receive h datagram l).2.session = { s with endpoint }.armed := by
  obtain ⟨auth, hletIn⟩ := letIn_session h datagram l
  refine ⟨auth, ?_⟩
  rcases receive_cases h datagram l with ⟨-, hreceive⟩ | ⟨a, -, hstate, hreceive⟩
  · rw [hreceive]
    exact .inl hletIn
  · have hresponse := respond_session h a.now a.message a.state
    rw [hstate] at hletIn
    rw [Ensures, Live.after, hletIn] at hresponse
    rw [hreceive, hresponse]
    exact .inr ⟨_, rfl⟩

/-! ## Upkeep -/

theorem sweep_session (h : Host ω) (now : Millis) (l : Live κ ω) :
    Ensures (sweep h now) l fun _ l' => l'.session = l.session.swept now := by
  refine (sweepDedup_ensures (v := fun _ => ()) now).bind_ok ?_
  intro l₁ hl₁
  obtain ⟨hsession₁, -⟩ := hl₁
  apply (sweepExchanges_ensures (h.keeps_const ()) now).imp
  intro _ l' hl'
  rw [hl'.1, hsession₁]
  rfl

/-- Everything about a ping is done before it is handed to the transport. -/
theorem ping_eq (h : Host ω) (interval now : Millis) (l : Live κ ω) :
    ping h interval now l =
      send h (pingMessage l.exchanges.allocate.1) .keepingAlive
        { session := { (l.session.pinging now).armed with pingDue := Millis.add now interval }
          world := l.world
          history := .noted (.pinging l.exchanges.allocate.1) :: l.history } := by
  -- An equation of what a ping does is something that it ensures.
  show Ensures (ping h interval now) l fun r l' => (r, l') = _
  simp only [ping, ensures_bind, ensures_session, ensures_note, ensures_modifySession,
    ensures_armTimers]
  rfl

theorem ping_session (h : Host ω) (interval now : Millis) (l : Live κ ω) :
    Ensures (ping h interval now) l fun _ l' => l'.session =
      { (l.session.pinging now).armed with pingDue := Millis.add now interval } := by
  rw [Ensures, ping_eq]
  exact send_session h _ _ _

theorem keepalive_cases (h : Host ω) (now : Millis) (l : Live κ ω) :
    (∃ interval, l.session.config.keepalive = some interval ∧ l.session.pingDue ≤ now ∧
        keepalive h now l = ping h interval now l) ∨
      (∀ interval, l.session.config.keepalive = some interval → now < l.session.pingDue) ∧
        keepalive h now l = (.ok (), l) := by
  have hsession : session l = (.ok l.session, l) := rfl
  rw [keepalive, bind_of_ok hsession]
  cases l.session.config.keepalive with
  | none => exact .inr ⟨fun _ hnone => (Option.some_ne_none _ hnone.symm).elim, rfl⟩
  | some interval =>
    dsimp only
    split
    · rename_i hdue
      exact .inl ⟨interval, rfl, hdue, rfl⟩
    · rename_i hdue
      exact .inr ⟨fun _ _ => Nat.not_le.1 hdue, rfl⟩

/-- What comes of background work. -/
def background : Except Failure Unit × Live κ ω → Live κ ω
  | (.ok _, l) => l
  | (.error failure, l) => { l with history := .noted (.background failure) :: l.history }

theorem noted_eq (a : Action κ ω Unit) (l : Live κ ω) :
    noted a l = (.ok (), background (a l)) := by
  have houtcome : outcome a l = (.ok (a l).1, (a l).2) := rfl
  rw [noted, bind_of_ok houtcome]
  rcases a l with ⟨f | _, l'⟩ <;> rfl

/-- Background work is done at the time of the clock, or not at all. -/
theorem atPresent_eq (h : Host ω) (work : Millis → Action κ ω Unit) (l : Live κ ω) :
    atPresent h work l = (.ok (), background
      (match h.now l.world with
        | (.error cause, w) => (.error ⟨cause, .sweeping⟩, { l with world := w })
        | (.ok now, w) => work now { l with world := w })) := by
  rw [atPresent, noted_eq]
  rcases hclock : h.now l.world with ⟨cause | now, w⟩
  · rw [bind_of_error (now_of_error hclock _)]
  · rw [bind_of_ok (now_of_ok hclock _)]

/-- What goes wrong in background work is noted and goes no further. -/
theorem ensures_atPresent {work : Millis → Action κ ω Unit} {Q : Live κ ω → Prop}
    (hunread : ∀ w, Q { l with world := w })
    (hwork : ∀ now w, h.now l.world = (.ok now, w) → Q (work now { l with world := w }).2)
    (hnoted : ∀ f l', Q l' → Q { l' with history := .noted (.background f) :: l'.history }) :
    Ensures (atPresent h work) l fun r l' => r = .ok () ∧ Q l' := by
  have hbackground : ∀ r : Except Failure Unit × Live κ ω, Q r.2 → Q (background r) := by
    rintro ⟨f | _, l'⟩ hl'
    · exact hnoted f l' hl'
    · exact hl'
  rw [Ensures, atPresent_eq]
  refine ⟨rfl, hbackground _ ?_⟩
  rcases hclock : h.now l.world with ⟨cause | now, w⟩
  · exact hunread w
  · exact hwork now w hclock

theorem tick_of_swept {w : ω} {l₁ : Live κ ω} (hclock : h.now l.world = (.ok now, w))
    (hsweep : sweep h now { l with world := w } = (.ok (), l₁)) :
    tick h l = keepalive h now l₁ := by
  rw [tick_eq, bind_of_ok (now_of_ok hclock _), bind_of_ok hsweep]

/-- Only a sweep that did not fail is followed by the question whether a ping is due. -/
theorem tick_cases (h : Host ω) (l : Live κ ω) :
    (∃ cause w, h.now l.world = (.error cause, w) ∧ (tick h l).2 = { l with world := w }) ∨
      ∃ now w, h.now l.world = (.ok now, w) ∧
        ((∃ f l', sweep h now { l with world := w } = (.error f, l') ∧ (tick h l).2 = l') ∨
          ∃ l', sweep h now { l with world := w } = (.ok (), l') ∧
            tick h l = keepalive h now l') := by
  rcases hclock : h.now l.world with ⟨cause | now, w⟩
  · rw [tick_eq, bind_of_error (now_of_error hclock _)]
    exact .inl ⟨cause, w, rfl, rfl⟩
  · refine .inr ⟨now, w, rfl, ?_⟩
    rcases hsweep : sweep h now { l with world := w } with ⟨f | _, l'⟩
    · rw [tick_eq, bind_of_ok (now_of_ok hclock _), bind_of_error hsweep]
      exact .inl ⟨f, l', rfl, rfl⟩
    · exact .inr ⟨l', rfl, tick_of_swept hclock hsweep⟩

theorem refreshKeepalive_session (h : Host ω) (l : Live κ ω) :
    Ensures (refreshKeepalive h) l fun _ l' =>
      l'.session = l.session.postponed (h.now l.world).1.toOption := by
  rw [refreshKeepalive, ensures_bind, ensures_now]
  cases (h.now l.world).1 with
  | error cause => exact (postponed_none l.session).symm
  | ok now => exact ensures_postponePing.2 rfl

end Action

theorem passOver_session (r : Except Failure α × Live κ ω) :
    (Action.passOver r).session = r.2.session := by
  rcases r with ⟨f | x, l⟩ <;> rfl

/-- A round of a poll receives what it finds, if it finds something. -/
theorem perform_collect (h : Host ω) (l : Live κ ω) :
    (Action.collected? h l = none ∧ (perform h l .collect).session = l.session) ∨
      ∃ datagram world, Action.collected? h l = some (datagram, { l with world }) ∧
        (perform h l .collect).session =
          (Action.receive h datagram { l with world }).2.session := by
  rcases Action.receiveReady_cases h l with ⟨hnone, hends⟩ | ⟨datagram, world, hsome, hround⟩
  · refine .inl ⟨hnone, ?_⟩
    rw [perform, hends]
  · refine .inr ⟨datagram, world, hsome, ?_⟩
    rw [perform, hround]
    exact passOver_session _

end Coap.Session
