import Coap.Proofs.Action
import Coap.Proofs.Handling

/-!
What the operations of a session do: how the tables move, and which effects there can be. What
the host's world looks like through a view `v` stays, where nothing but the application changes
what is seen.
-/
namespace Coap

variable {κ ω β : Type}

/-- Nothing but the application changes what is seen of the world. -/
structure Host.Keeps (h : Host ω) (v : ω → β) : Prop where
  readClock : ∀ w, v (h.readClock w).2 = v w
  openTransport : ∀ w, v (h.openTransport w).2 = v w
  transmit : ∀ b w, v (h.transmit b w).2 = v w
  authenticate : ∀ tokenType token w, v (h.authenticate tokenType token w).2 = v w

theorem Host.Keeps.now {h : Host ω} {v : ω → β} (hk : h.Keeps v) (w : ω) :
    v (h.now w).2 = v w := by
  have hread := hk.readClock w
  unfold Host.now
  split
  · rename_i w' hclock
    rw [hclock] at hread
    exact hread
  · rename_i ticks w' hclock
    rw [hclock] at hread
    split <;> exact hread

theorem Host.keeps_const (h : Host ω) (b : β) : h.Keeps fun _ => b :=
  ⟨fun _ => rfl, fun _ => rfl, fun _ _ => rfl, fun _ _ _ => rfl⟩

/-- The transport takes the datagram of a message. -/
structure Host.Takes (h : Host ω) (m : Message) (w : ω) (b : Bytes) (w' : ω) : Prop where
  write : m.write = .ok b
  transmit : h.transmit b w = (.ok (), w')

/-- A message cannot be written, or the transport does not take it. -/
inductive Host.Refuses (h : Host ω) (m : Message) (w : ω) : Cause → ω → Prop
  | unwritable {cause : Message.WriteError} (hwrite : m.write = .error cause) :
    h.Refuses m w (.unwritable cause) w
  | untaken {b : Bytes} {reason : String} {w' : ω} (hwrite : m.write = .ok b)
    (htransmit : h.transmit b w = (.error reason, w')) : h.Refuses m w (.transport reason) w'

section
variable {h : Host ω} {v : ω → β} {m : Message} {w w' : ω}

theorem Host.Takes.keeps {b : Bytes} (htakes : h.Takes m w b w') (hk : h.Keeps v) : v w' = v w := by
  rw [← hk.transmit b w, htakes.transmit]

theorem Host.Refuses.keeps {cause : Cause} (hrefuses : h.Refuses m w cause w') (hk : h.Keeps v) :
    v w' = v w := by
  cases hrefuses with
  | unwritable => rfl
  | @untaken b _ _ _ htransmit => rw [← hk.transmit b w, htransmit]

end

namespace Session

/-- The history grew by effects of one kind only. -/
structure Live.Grows (v : ω → β) (p : Effect κ → Prop) (l l' : Live κ ω) : Prop where
  config : l'.session.config = l.session.config
  view : v l'.world = v l.world
  history : ∃ es, l'.history = es ++ l.history ∧ ∀ e ∈ es, p e

/-- Nothing was exchanged with the peer or the application, and the tables are as before. -/
structure Live.Quiet (v : ω → β) (l l' : Live κ ω) : Prop
    extends l.Grows v Effect.IsAside l' where
  endpoint : l'.session.endpoint = l.session.endpoint

namespace Live
variable {v : ω → β} {p q : Effect κ → Prop} {l l' l'' : Live κ ω}

/-- No effect at all. -/
theorem Grows.of_eq (hconfig : l'.session.config = l.session.config)
    (hview : v l'.world = v l.world) (hhistory : l'.history = l.history) : l.Grows v p l' :=
  ⟨hconfig, hview, [], hhistory, List.forall_mem_nil p⟩

theorem Grows.refl : l.Grows v p l := .of_eq rfl rfl rfl

theorem Grows.note (n : Notice) :
    l.Grows v Effect.IsAside { l with history := .noted n :: l.history } :=
  ⟨rfl, rfl, [.noted n], rfl, by simp [Effect.IsAside]⟩

theorem Grows.trans (h : l.Grows v p l') (h' : l'.Grows v p l'') : l.Grows v p l'' := by
  obtain ⟨es, hes, hp⟩ := h.history
  obtain ⟨es', hes', hp'⟩ := h'.history
  refine ⟨h'.config.trans h.config, h'.view.trans h.view, es' ++ es, ?_, ?_⟩
  · rw [hes', hes, List.append_assoc]
  · intro e he
    rcases List.mem_append.1 he with he | he
    · exact hp' e he
    · exact hp e he

theorem Grows.mono (h : l.Grows v p l') (hpq : ∀ e, p e → q e) : l.Grows v q l' := by
  obtain ⟨es, hes, hp⟩ := h.history
  exact ⟨h.config, h.view, es, hes, fun e he => hpq e (hp e he)⟩

/-- Every effect is an old one or of the kind. -/
theorem Grows.mem (h : l.Grows v p l') {e : Effect κ} (he : e ∈ l'.history) :
    p e ∨ e ∈ l.history := by
  obtain ⟨es, hes, hp⟩ := h.history
  rw [hes] at he
  rcases List.mem_append.1 he with he | he
  · exact .inl (hp e he)
  · exact .inr he

theorem Grows.mem_of_mem (h : l.Grows v p l') {e : Effect κ} (he : e ∈ l.history) :
    e ∈ l'.history := by
  obtain ⟨es, hes, -⟩ := h.history
  rw [hes]
  exact List.mem_append_right es he

theorem after_grows {turn : Turn κ ω} (hview : v turn.world = v l.world)
    (heffects : ∀ e ∈ turn.effects, p e) : l.Grows v p (l.after turn) :=
  ⟨rfl, hview, turn.effects.reverse, rfl, fun e he => heffects e (List.mem_reverse.1 he)⟩

theorem sent_of_after {turn : Turn κ ω} (heffects : ∀ d, .sent d ∉ turn.effects) {d : Bytes}
    (hd : .sent d ∈ (l.after turn).history) : .sent d ∈ l.history := by
  rcases List.mem_append.1 hd with hd | hd
  · exact absurd (List.mem_reverse.1 hd) (heffects d)
  · exact hd

theorem Quiet.refl : l.Quiet v l := ⟨.refl, rfl⟩

theorem Quiet.trans (h : l.Quiet v l') (h' : l'.Quiet v l'') : l.Quiet v l'' :=
  ⟨h.toGrows.trans h'.toGrows, h'.endpoint.trans h.endpoint⟩

end Live

namespace Action
variable {v : ω → β} {h : Host ω} {l : Live κ ω}

theorem note_quiet (n : Notice) : Ensures (note n) l fun r l' => r = .ok () ∧ l.Quiet v l' :=
  ⟨rfl, .note n, rfl⟩

theorem now_quiet (hk : h.Keeps v) (during : Activity) :
    Ensures (now h during) l fun r l' =>
      (∀ t, r = .ok t → (h.now l.world).1 = .ok t) ∧ l.Quiet v l' := by
  rw [ensures_now]
  refine ⟨?_, .of_eq rfl (hk.now l.world) rfl, rfl⟩
  intro t ht
  cases hnow : (h.now l.world).1 with
  | error cause => rw [hnow] at ht; cases ht
  | ok now => rw [hnow] at ht; cases ht; rfl

theorem postponePing_quiet (now : Millis) :
    Ensures (postponePing now) l fun r l' => r = .ok () ∧ l.Quiet v l' := by
  rw [postponePing, ensures_modifySession]
  split <;> exact ⟨rfl, .of_eq rfl rfl rfl, rfl⟩

theorem armTimers_quiet : Ensures armTimers l fun r l' => r = .ok () ∧ l.Quiet v l' := by
  rw [armTimers, ensures_modifySession]
  split <;> exact ⟨rfl, .of_eq rfl rfl rfl, rfl⟩

theorem ensureToken_quiet (m : Message) :
    Ensures (ensureToken m) l fun r l' =>
      r = .ok { m with token := l.session.tokenFor m } ∧ l.Quiet v l' := by
  rw [ensures_ensureToken]
  split <;> exact ⟨rfl, .of_eq rfl rfl rfl, rfl⟩

/-- A message goes out, or it is refused and nothing else happens. -/
theorem send_cases (h : Host ω) (m : Message) (during : Activity) (l : Live κ ω) :
    (∃ b w, h.Takes m l.world b w ∧ send h m during l =
        (.ok (), { l with world := w, history := .noted (.sent m) :: .sent b :: l.history })) ∨
      ∃ cause w, h.Refuses m l.world cause w ∧
        send h m during l = (.error ⟨cause, during⟩, { l with world := w }) := by
  unfold send
  cases hwrite : m.write with
  | error cause => exact .inr ⟨_, _, .unwritable hwrite, rfl⟩
  | ok b =>
    have hcall : call (κ := κ) (h.transmit b) l =
        (.ok (h.transmit b l.world).1, { l with world := (h.transmit b l.world).2 }) := rfl
    simp only [bind_of_ok hcall]
    rcases htransmit : h.transmit b l.world with ⟨reason | _, w⟩
    · exact .inr ⟨_, _, .untaken hwrite htransmit, rfl⟩
    · exact .inl ⟨b, w, ⟨hwrite, htransmit⟩, rfl⟩

theorem send_refused (h : Host ω) (m : Message) (during : Activity) (l : Live κ ω) :
    Ensures (send h m during) l fun r _ => ∀ f, r = .error f →
      f.during = during ∧ ∃ w, h.Refuses m l.world f.cause w := by
  rw [Ensures]
  rcases send_cases h m during l with ⟨b, w, -, hsend⟩ | ⟨cause, w, hrefuses, hsend⟩
  · rw [hsend]
    intro f hf
    cases hf
  · rw [hsend]
    intro f hf
    cases hf
    exact ⟨rfl, w, hrefuses⟩

/-- Only the message goes out, and only where the transport takes it. -/
theorem send_ensures (hk : h.Keeps v) (m : Message) (during : Activity) :
    Ensures (send h m during) l fun r l' =>
      l'.session = l.session ∧ l.Grows v (fun e => e.IsAside ∨ e.Sends (· = m)) l' ∧
        ∀ f, r = .error f → l.Quiet v l' := by
  rw [Ensures]
  rcases send_cases h m during l with ⟨b, w, htakes, hsend⟩ | ⟨cause, w, hrefuses, hsend⟩
  · rw [hsend]
    refine ⟨rfl, ⟨rfl, htakes.keeps hk, [.noted (.sent m), .sent b], rfl, ?_⟩, ?_⟩
    · intro e he
      rcases List.mem_cons.1 he with rfl | he
      · exact .inl trivial
      · obtain rfl := List.mem_singleton.1 he
        exact .inr ⟨m, b, rfl, htakes.write, rfl⟩
    · intro f hf
      cases hf
  · rw [hsend]
    have hview := hrefuses.keeps hk
    exact ⟨rfl, .of_eq rfl hview rfl, fun _ _ => ⟨.of_eq rfl hview rfl, rfl⟩⟩

theorem present_quiet (hk : h.Keeps v) (q : Query) (tokenType token : String) :
    Ensures (present h q tokenType token) l fun _ l' => l.Quiet v l' := by
  have hview := hk.authenticate tokenType token l.world
  simp only [present, ensures_bind, ensures_emit, ensures_call, ensures_ite,
    ensures_modifySession, ensures_note, ensures_throw]
  split
  · refine ⟨⟨rfl, hview, [.noted _, .presented _ _], rfl, ?_⟩, rfl⟩
    simp [Effect.IsAside]
  · refine ⟨⟨rfl, hview, [.noted _, .presented _ _], rfl, ?_⟩, rfl⟩
    simp [Effect.IsAside]

theorem ensureAuthentication_quiet (hk : h.Keeps v) (m : Message) (force : Bool) :
    Ensures (ensureAuthentication h m force) l fun _ l' => l.Quiet v l' := by
  simp only [ensureAuthentication, ensures_bind, ensures_session, ensures_ite]
  split
  · exact .refl
  · split
    · exact .refl
    · split
      · exact present_quiet hk _ _ _
      · simp only [ensures_ite, ensures_bind, ensures_note, ensures_throw]
        split
        · exact ⟨.note _, rfl⟩
        · exact .refl

/-- Only requests need a credential. -/
def authorize (h : Host ω) (m : Message) : Action κ ω Unit :=
  if m.kind = .request then ensureAuthentication h m false else pure ()

theorem authorize_quiet (hk : h.Keeps v) (m : Message) :
    Ensures (authorize h m) l fun _ l' => l.Quiet v l' := by
  rw [authorize, ensures_ite]
  split
  · exact ensureAuthentication_quiet hk m false
  · exact .refl

/-- What is left of `receive` once the message is let in. -/
def respond (h : Host ω) (now : Millis) (m : Message) : Action κ ω (Option Message) := do
  let reply ← handle h now m
  armTimers
  match reply with
  | some r => send h r (.sending r.id r.token)
  | none => pure ()
  return reply

theorem respond_ensures (hk : h.Keeps v) (now : Millis) (m : Message) :
    Ensures (respond h now m) l fun _ l' =>
      let turn := l.session.endpoint.handle h.application now m l.world
      (l.after turn).Grows v (fun e => e.IsAside ∨ e.Sends fun r => turn.reply = some r) l' ∧
        l'.session.endpoint = turn.endpoint := by
  unfold respond
  rw [ensures_bind, ensures_handle]
  refine (armTimers_quiet (v := v)).bind_ok ?_
  intro l₁ hq
  have hgrows := hq.toGrows.mono (q := fun e => e.IsAside ∨ e.Sends fun r =>
    (l.session.endpoint.handle h.application now m l.world).reply = some r) fun _ => .inl
  cases hreply : (l.session.endpoint.handle h.application now m l.world).reply with
  | none =>
    exact ⟨hgrows, hq.endpoint⟩
  | some r =>
    refine (send_ensures hk r _).bind ?_ ?_ <;>
    · intro _ l₂ hl₂
      obtain ⟨hsession, hg, _⟩ := hl₂
      refine ⟨hgrows.trans (hg.mono ?_), (congrArg Session.endpoint hsession).trans hq.endpoint⟩
      intro e he
      rcases he with he | he
      · exact .inl he
      · exact .inr (he.mono fun _ hr => hr ▸ hreply)

theorem receive_eq (datagram : Bytes) :
    receive (κ := κ) h datagram = (do
      let now ← now h .receiving
      postponePing now
      match Message.read datagram with
      | .error cause =>
        note (.discarded datagram.length cause)
        throw ⟨.unreadable cause, .receiving⟩
      | .ok m =>
        note (.received m)
        authorize h m
        respond h now m) := by
  unfold receive
  cases Message.read datagram with
  | error cause => rfl
  | ok m =>
    by_cases hkind : m.kind = .request <;>
      simp only [hkind, authorize, if_true, if_false] <;> rfl

/-- **A datagram is passed over, or it is handled.** It is handled at the clock's time and as the
message that it reads as; after that only the reply can still go out. -/
theorem receive_ensures (hk : h.Keeps v) (datagram : Bytes) :
    Ensures (receive h datagram) l fun _ l' =>
      l.Quiet v l' ∨
      ∃ now m l₁, (h.now l.world).1 = .ok now ∧ Message.read datagram = .ok m ∧ l.Quiet v l₁ ∧
        let turn := l₁.session.endpoint.handle h.application now m l₁.world
        (l₁.after turn).Grows v (fun e => e.IsAside ∨ e.Sends fun r => turn.reply = some r) l' ∧
          l'.session.endpoint = turn.endpoint := by
  rw [receive_eq]
  refine (now_quiet hk .receiving).bind ?_ fun _ _ hq => .inl hq.2
  intro now l₁ ⟨hnow, hq₁⟩
  refine (postponePing_quiet (v := v) now).bind_ok ?_
  intro l₂ hq₂
  have hquiet := hq₁.trans hq₂
  cases hread : Message.read datagram with
  | error cause =>
    refine (note_quiet (v := v) _).bind_ok ?_
    intro l₃ hq₃
    exact .inl (hquiet.trans hq₃)
  | ok m =>
    refine (note_quiet (v := v) _).bind_ok ?_
    intro l₃ hq₃
    refine (authorize_quiet hk m).bind ?_ fun _ _ hq => .inl ((hquiet.trans hq₃).trans hq)
    intro _ l₄ hq₄
    refine (respond_ensures hk now m).imp ?_
    intro _ l' hl'
    exact .inr ⟨now, m, l₄, hnow now rfl, rfl, (hquiet.trans hq₃).trans hq₄, hl'⟩

/-- What has happened stays in the history. -/
theorem receive_history (hk : h.Keeps v) (datagram : Bytes) {e : Effect κ} (he : e ∈ l.history) :
    e ∈ (receive h datagram l).2.history := by
  rcases receive_ensures (l := l) hk datagram with hq | ⟨now, m, l₁, -, -, hq, hg, -⟩
  · exact hq.toGrows.mem_of_mem he
  · exact hg.mem_of_mem (List.mem_append_right _ (hq.toGrows.mem_of_mem he))

theorem sweepDedup_ensures (now : Millis) :
    Ensures (sweepDedup now) l fun r l' =>
      r = .ok () ∧ l'.session = l.session.setDedup (l.session.endpoint.dedup.sweep now) ∧
        l.Grows v Effect.IsAside l' := by
  simp only [sweepDedup, ensures_bind, ensures_session, ensures_modifySession, ensures_ite]
  split
  · exact ⟨rfl, rfl, rfl, rfl, [.noted _], rfl, by simp [Effect.IsAside]⟩
  · exact ⟨rfl, rfl, .of_eq rfl rfl rfl⟩

/-- The effects of acting on events: messages that are due go out again, and the listener is told
of those that are given up. -/
def Acts (events : List Exchanges.Event) (e : Effect κ) : Prop :=
  e.IsAside ∨ e.GivesUp (fun id token => .abandoned id token ∈ events) ∨
    e.Sends fun m => .retry m ∈ events

theorem Acts.mono {events events' : List Exchanges.Event} (hsub : ∀ e ∈ events, e ∈ events')
    {e : Effect κ} (h : Acts events e) : Acts events' e :=
  h.imp_right (.imp (.mono fun _ _ => hsub _) (.mono fun _ => hsub _))

theorem actOn_ensures (hk : h.Keeps v) (event : Exchanges.Event) :
    Ensures (actOn h event) l fun _ l' =>
      l'.session = l.session ∧ l.Grows v (Acts [event]) l' := by
  cases event with
  | retry m =>
    rw [actOn, ensures_bind, ensures_note]
    apply (send_ensures hk m _).imp
    intro _ l' hl'
    obtain ⟨hsession, hg, _⟩ := hl'
    refine ⟨hsession, ((Live.Grows.note _).mono fun _ => .inl).trans (hg.mono ?_)⟩
    intro e he
    rcases he with he | he
    · exact .inl he
    · exact .inr (.inr (he.mono fun _ hm => hm ▸ List.mem_singleton_self _))
  | abandoned id token =>
    simp only [actOn, ensures_bind, ensures_note, ensures_session]
    split
    · refine ⟨rfl, rfl, rfl, [.abandoned _ id token, .noted _], rfl, ?_⟩
      intro e he
      rcases List.mem_cons.1 he with rfl | he
      · exact .inr (.inl ⟨_, id, token, List.mem_singleton_self _, rfl⟩)
      · obtain rfl := List.mem_singleton.1 he
        exact .inl trivial
    · exact ⟨rfl, (Live.Grows.note _).mono fun _ => .inl⟩

theorem forM_actOn_ensures (hk : h.Keeps v) (events : List Exchanges.Event) :
    Ensures (events.forM (actOn h)) l fun _ l' =>
      l'.session = l.session ∧ l.Grows v (Acts events) l' := by
  induction events generalizing l with
  | nil => exact ⟨rfl, .refl⟩
  | cons event events ih =>
    have hfirst : ∀ e : Effect κ, Acts [event] e → Acts (event :: events) e :=
      fun _ => .mono (by simp)
    have hrest : ∀ e : Effect κ, Acts events e → Acts (event :: events) e :=
      fun _ => .mono fun _ => List.mem_cons_of_mem _
    refine (actOn_ensures hk event).bind ?_ fun _ l' hf => ⟨hf.1, hf.2.mono hfirst⟩
    intro _ l₁ hl₁
    apply ih.imp
    intro _ l' hl'
    exact ⟨hl'.1.trans hl₁.1, (hl₁.2.mono hfirst).trans (hl'.2.mono hrest)⟩

theorem sweepExchanges_ensures (hk : h.Keeps v) (now : Millis) :
    Ensures (sweepExchanges h now) l fun _ l' =>
      l'.session = l.session.setExchanges (l.session.endpoint.exchanges.sweep now).2 ∧
        l.Grows v (Acts (l.session.endpoint.exchanges.sweep now).1) l' := by
  simp only [sweepExchanges, ensures_bind, ensures_session, ensures_modifySession]
  apply (forM_actOn_ensures hk _).imp
  intro _ l' hl'
  obtain ⟨hsession, hg⟩ := hl'
  exact ⟨hsession, hg.config, hg.view, hg.history⟩

/-- The part of a tick that sweeps. -/
def sweep (h : Host ω) (now : Millis) : Action κ ω Unit := do
  sweepDedup now
  sweepExchanges h now

theorem sweep_ensures (hk : h.Keeps v) (now : Millis) :
    Ensures (sweep h now) l fun _ l' =>
      l'.session.endpoint = ⟨l.session.endpoint.dedup.sweep now,
          (l.session.endpoint.exchanges.sweep now).2⟩ ∧
        l.Grows v (Acts (l.session.endpoint.exchanges.sweep now).1) l' := by
  refine (sweepDedup_ensures (v := v) now).bind_ok ?_
  intro l₁ hl₁
  obtain ⟨hsession₁, hg₁⟩ := hl₁
  have hswept := sweepExchanges_ensures (l := l₁) hk now
  rw [hsession₁] at hswept
  apply hswept.imp
  intro _ l' hl'
  obtain ⟨hsession, hg⟩ := hl'
  exact ⟨congrArg Session.endpoint hsession, (hg₁.mono fun _ => .inl).trans hg⟩

/-- A ping takes the next id, is sent again like any confirmable message, and is all that goes
out. -/
theorem ping_ensures (hk : h.Keeps v) (interval now : Millis) :
    Ensures (ping h interval now) l fun _ l' =>
      l.Grows v (fun e => e.IsAside ∨
        e.Sends (· = pingMessage l.session.endpoint.exchanges.allocate.1)) l' ∧
      l'.session.endpoint = ⟨l.session.endpoint.dedup,
        l.session.endpoint.exchanges.allocate.2.schedule
          (pingMessage l.session.endpoint.exchanges.allocate.1) now⟩ := by
  simp only [ping, ensures_bind, ensures_session, ensures_note, ensures_modifySession]
  apply (armTimers_quiet (v := v)).imp
  intro _ l₁ hl₁
  obtain ⟨rfl, hq⟩ := hl₁
  apply (send_ensures hk (pingMessage l.session.endpoint.exchanges.allocate.1) .keepingAlive).imp
  intro _ l₂ hl₂
  obtain ⟨hsession, hg, _⟩ := hl₂
  have hnoted : l.Grows v Effect.IsAside l₁ :=
    (Live.Grows.note (.pinging l.session.endpoint.exchanges.allocate.1)).trans
      ⟨hq.config, hq.view, hq.history⟩
  have hdue : l₁.Grows v Effect.IsAside
      { l₁ with session := { l₁.session with pingDue := Millis.add now interval } } :=
    .of_eq rfl rfl rfl
  refine ⟨((hnoted.trans hdue).mono fun _ => .inl).trans hg, ?_⟩
  exact (congrArg Session.endpoint hsession).trans hq.endpoint

theorem keepalive_ensures (hk : h.Keeps v) (now : Millis) :
    Ensures (keepalive h now) l fun _ l' =>
      l.Quiet v l' ∨
      l.session.config.keepalive ≠ none ∧
        l.Grows v (fun e => e.IsAside ∨
          e.Sends (· = pingMessage l.session.endpoint.exchanges.allocate.1)) l' ∧
        l'.session.endpoint = ⟨l.session.endpoint.dedup,
          l.session.endpoint.exchanges.allocate.2.schedule
            (pingMessage l.session.endpoint.exchanges.allocate.1) now⟩ := by
  simp only [keepalive, ensures_bind, ensures_session]
  split
  · rename_i interval hkeep
    rw [ensures_ite]
    split
    · apply (ping_ensures hk interval now).imp
      intro _ l' hping
      exact .inr ⟨hkeep ▸ Option.some_ne_none interval, hping⟩
    · exact .inl .refl
  · exact .inl .refl

theorem tick_eq : tick (κ := κ) h = (do
    let now ← now h .sweeping
    sweep h now
    keepalive h now) := by
  simp only [tick, sweep, bind_assoc]

/-- **A tick sweeps both tables.** What it sends is a message that is due again, or the ping that
breaks a silence; a sweep that failed is not followed by a ping. -/
theorem tick_ensures (hk : h.Keeps v) :
    Ensures (tick h) l fun _ l' =>
      l.Quiet v l' ∨
      ∃ now, (h.now l.world).1 = .ok now ∧
        let swept := l.session.endpoint.exchanges.sweep now
        l.Grows v (fun e => e.IsAside ∨ e.IsAbandoned ∨ e.Sends fun m =>
          .retry m ∈ swept.1 ∨
            l.session.config.keepalive ≠ none ∧ m = pingMessage swept.2.allocate.1) l' ∧
        l'.session.endpoint.dedup = l.session.endpoint.dedup.sweep now ∧
        (l'.session.endpoint.exchanges = swept.2 ∨
          l.session.config.keepalive ≠ none ∧ l'.session.endpoint.exchanges =
            swept.2.allocate.2.schedule (pingMessage swept.2.allocate.1) now) := by
  rw [tick_eq]
  refine (now_quiet hk .sweeping).bind ?_ fun _ _ hq => .inl hq.2
  intro now l₁ hl₁
  obtain ⟨hnow, hq₁⟩ := hl₁
  have hswept := sweep_ensures (l := l₁) hk now
  rw [hq₁.endpoint] at hswept
  have hgrows : ∀ l₂ : Live κ ω,
      l₁.Grows v (Acts (l.session.endpoint.exchanges.sweep now).1) l₂ →
      l.Grows v (fun e => e.IsAside ∨ e.IsAbandoned ∨ e.Sends fun m =>
        .retry m ∈ (l.session.endpoint.exchanges.sweep now).1 ∨
          l.session.config.keepalive ≠ none ∧
            m = pingMessage (l.session.endpoint.exchanges.sweep now).2.allocate.1) l₂ := by
    intro l₂ hg₂
    refine (hq₁.toGrows.mono fun _ => .inl).trans (hg₂.mono ?_)
    intro e he
    exact he.imp_right (.imp Effect.GivesUp.isAbandoned (.mono fun _ => .inl))
  refine hswept.bind ?_ ?_
  rotate_left
  · intro _ l₂ hl₂
    obtain ⟨hendpoint₂, hg₂⟩ := hl₂
    refine .inr ⟨now, hnow now rfl, hgrows l₂ hg₂, ?_, .inl ?_⟩
    · rw [hendpoint₂]
    · rw [hendpoint₂]
  intro _ l₂ hl₂
  obtain ⟨hendpoint₂, hg₂⟩ := hl₂
  have hkept := keepalive_ensures (l := l₂) hk now
  rw [hendpoint₂, hg₂.config.trans hq₁.config] at hkept
  apply hkept.imp
  intro _ l' hl'
  rcases hl' with hq | ⟨hkeep, hg, hendpoint⟩
  · refine .inr ⟨now, hnow now rfl, ?_, ?_, .inl ?_⟩
    · exact (hgrows l₂ hg₂).trans (hq.toGrows.mono fun _ => .inl)
    · rw [hq.endpoint, hendpoint₂]
    · rw [hq.endpoint, hendpoint₂]
  · refine .inr ⟨now, hnow now rfl, ?_, ?_, .inr ⟨hkeep, ?_⟩⟩
    · refine (hgrows l₂ hg₂).trans (hg.mono ?_)
      intro e he
      rcases he with he | he
      · exact .inl he
      · exact .inr (.inr (he.mono fun _ hm => .inr ⟨hkeep, hm⟩))
    · rw [hendpoint]
    · rw [hendpoint]

theorem tick_history (hk : h.Keeps v) {e : Effect κ} (he : e ∈ l.history) :
    e ∈ (tick h l).2.history := by
  rcases tick_ensures (l := l) hk with hq | ⟨now, -, hg, -⟩
  · exact hq.toGrows.mem_of_mem he
  · exact hg.mem_of_mem he

/-- What is left of `sendCorrelated` once the request has its id. -/
def transmit (h : Host ω) (m : Message) (now : Millis) : Action κ ω (MessageId × Token) := do
  schedule m now
  match ← outcome (send h m (.sending m.id m.token)) with
  | .error failure =>
    cancel m.id
    throw failure
  | .ok () =>
    postponePing now
    armTimers
    return (m.id, m.token)

theorem transmit_ensures (hk : h.Keeps v) (m : Message) (now : Millis) :
    Ensures (transmit h m now) l fun r l' =>
      let x := l.session.endpoint.exchanges.schedule m now
      (∃ f, r = .error f) ∧ l.Grows v Effect.IsAside l' ∧
          l'.session.endpoint = ⟨l.session.endpoint.dedup, x.cancel m.id⟩ ∨
        r = .ok (m.id, m.token) ∧ l.Grows v (fun e => e.IsAside ∨ e.Sends (· = m)) l' ∧
          l'.session.endpoint = ⟨l.session.endpoint.dedup, x⟩ := by
  unfold transmit
  rw [ensures_bind, schedule, ensures_modifySession, ensures_bind, ensures_outcome]
  apply (send_ensures hk m _).imp
  intro r l₁ hl₁
  obtain ⟨hsession, hg, hquiet⟩ := hl₁
  cases r with
  | error failure =>
    have hq := hquiet failure rfl
    refine .inl ⟨⟨failure, rfl⟩, ⟨hq.config, hq.view, hq.history⟩, ?_⟩
    show Endpoint.mk _ (l₁.session.endpoint.exchanges.cancel m.id) = _
    rw [hsession]
    rfl
  | ok _ =>
    refine (postponePing_quiet (v := v) now).bind_ok ?_
    intro l₂ hq₂
    refine (armTimers_quiet (v := v)).bind_ok ?_
    intro l₃ hq₃
    have hq := hq₂.trans hq₃
    refine .inr ⟨rfl, ?_, ?_⟩
    · exact .trans ⟨hg.config, hg.view, hg.history⟩ (hq.toGrows.mono fun _ => .inl)
    · show l₃.session.endpoint = _
      rw [hq.endpoint, hsession]
      rfl

/-- What becomes of the exchanges where a request is to go out. -/
inductive Begins (x : Exchanges κ) (m : Message) (delivery : Delivery κ) :
    Except Failure (MessageId × Token) → Exchanges κ → Prop
  | untimed (f : Failure) : Begins x m delivery (.error f) x
  | exhausted (f : Failure) {now : Millis} {x' : Exchanges κ}
      (h : x.register m.token delivery now = (none, x')) : Begins x m delivery (.error f) x'
  /-- The exchange is ended again. -/
  | unsent (f : Failure) {now : Millis} {id : MessageId} {x' : Exchanges κ}
      (h : x.register m.token delivery now = (some id, x')) :
      Begins x m delivery (.error f) ((x'.schedule { m with id } now).cancel id)
  | sent {now : Millis} {id : MessageId} {x' : Exchanges κ}
      (h : x.register m.token delivery now = (some id, x')) :
      Begins x m delivery (.ok (id, m.token)) (x'.schedule { m with id } now)

theorem Begins.token_eq {x x' : Exchanges κ} {m : Message} {delivery : Delivery κ}
    {r : Except Failure (MessageId × Token)} {id : MessageId} {token : Token}
    (hbegins : Begins x m delivery r x') (hr : r = .ok (id, token)) : token = m.token := by
  cases hbegins with
  | sent => cases hr; rfl
  | _ => cases hr

/-- What a request adds whose first response alone is wanted. -/
theorem Begins.once_cases {x x' : Exchanges κ} {m : Message} {callback : Option κ}
    {r : Except Failure (MessageId × Token)} (hbegins : Begins x m (.once callback) r x') :
    (∃ f, r = .error f) ∧ x.Shrinks x' ∨
      ∃ id, r = .ok (id, m.token) ∧ x'.observers = x.observers ∧
        (∀ (id' : MessageId) p, x'.pending[id']? = some p →
          x.pending[id']? = some p ∨ id' = id ∧ p.token = m.token ∧ p.callback = callback) ∧
        ∀ (id' : MessageId) r', x'.retries[id']? = some r' →
          x.retries[id']? = some r' ∨ r'.message = { m with id } := by
  cases hbegins with
  | untimed f => exact .inl ⟨⟨f, rfl⟩, .refl⟩
  | exhausted f hregister => exact .inl ⟨⟨f, rfl⟩, Exchanges.register_none hregister⟩
  | @unsent f now id x₁ hregister =>
    obtain ⟨-, hpending, hobservers, hretries⟩ := Exchanges.register_once hregister
    refine .inl ⟨⟨f, rfl⟩, (Exchanges.observers_schedule _ _).trans hobservers, ?_, ?_⟩
    · intro id' p hp
      obtain ⟨hp, hne⟩ := Exchanges.getElem?_of_erase hp
      rw [Exchanges.pending_schedule, hpending, Std.ExtTreeMap.getElem?_insert] at hp
      split at hp
      · rename_i heq
        exact absurd (Std.LawfulEqCmp.eq_of_compare heq).symm hne
      · exact hp
    · intro id' r' hr'
      obtain ⟨hr', hne⟩ := Exchanges.getElem?_of_erase hr'
      rcases Exchanges.retries_schedule hr' with ⟨hid, -⟩ | hold
      · exact absurd hid hne
      · rw [hretries] at hold
        exact ⟨r', hold, rfl⟩
  | @sent now id x₁ hregister =>
    obtain ⟨-, hpending, hobservers, hretries⟩ := Exchanges.register_once hregister
    refine .inr ⟨id, rfl, (Exchanges.observers_schedule _ _).trans hobservers, ?_, ?_⟩
    · intro id' p hp
      rw [Exchanges.pending_schedule, hpending, Std.ExtTreeMap.getElem?_insert] at hp
      split at hp
      · rename_i heq
        cases hp
        exact .inr ⟨(Std.LawfulEqCmp.eq_of_compare heq).symm, rfl, rfl⟩
      · exact .inl hp
    · intro id' r' hr'
      rcases Exchanges.retries_schedule hr' with ⟨-, hmessage⟩ | hold
      · exact .inr hmessage
      · rw [hretries] at hold
        exact .inl hold

theorem sendCorrelated_eq (m : Message) (delivery : Delivery κ) :
    sendCorrelated h m delivery = (do
      let m ← ensureToken m
      let now ← now h (.sending m.id m.token)
      match ← register m delivery now with
      | none => throw ⟨.idsExhausted, .sending m.id m.token⟩
      | some id => transmit h { m with id } now) := rfl

/-- **A request that goes out goes out under a fresh id**, and nothing else does. -/
theorem sendCorrelated_ensures (hk : h.Keeps v) (m : Message) (delivery : Delivery κ) :
    Ensures (sendCorrelated h m delivery) l fun r l' =>
      let request := { m with token := l.session.tokenFor m }
      l'.session.endpoint.dedup = l.session.endpoint.dedup ∧
        Begins l.session.endpoint.exchanges request delivery r l'.session.endpoint.exchanges ∧
        l.Grows v (fun e => e.IsAside ∨
          ∃ id token, r = .ok (id, token) ∧ e.Sends (· = { request with id })) l' := by
  rw [sendCorrelated_eq]
  refine (ensureToken_quiet (v := v) m).bind_ok ?_
  intro l₁ hq₁
  refine (now_quiet hk _).bind ?_ ?_
  rotate_left
  · intro f l₂ hl₂
    obtain ⟨_, hq₂⟩ := hl₂
    have hq := hq₁.trans hq₂
    refine ⟨congrArg Endpoint.dedup hq.endpoint, ?_, hq.toGrows.mono fun _ => .inl⟩
    rw [hq.endpoint]
    exact .untimed f
  intro now l₂ hl₂
  obtain ⟨_, hq₂⟩ := hl₂
  have hq := hq₁.trans hq₂
  rw [ensures_bind, ensures_register, hq.endpoint]
  rcases hregister : l.session.endpoint.exchanges.register (l.session.tokenFor m) delivery now
    with ⟨id?, x⟩
  have hregistered : l.Grows v Effect.IsAside { l₂ with session := l₂.session.setExchanges x } :=
    ⟨hq.config, hq.view, hq.history⟩
  have hdedup : (l₂.session.setExchanges x).endpoint.dedup = l.session.endpoint.dedup := by
    rw [← hq.endpoint]
    rfl
  cases id? with
  | none => exact ⟨hdedup, .exhausted _ hregister, hregistered.mono fun _ => .inl⟩
  | some id =>
    apply (transmit_ensures hk _ now).imp
    intro r l₃ hl₃
    rcases hl₃ with ⟨⟨f, rfl⟩, hg, hendpoint⟩ | ⟨rfl, hg, hendpoint⟩
    · refine ⟨by rw [hendpoint]; exact hdedup, ?_, (hregistered.trans hg).mono fun _ => .inl⟩
      rw [hendpoint]
      exact .unsent f hregister
    · refine ⟨by rw [hendpoint]; exact hdedup, ?_, ?_⟩
      · rw [hendpoint]
        exact .sent hregister
      · refine (hregistered.mono fun _ => .inl).trans (hg.mono ?_)
        intro e he
        rcases he with he | he
        · exact .inl he
        · exact .inr ⟨_, _, rfl, he⟩

theorem sendRequest_ensures (hk : h.Keeps v) (m : Message) (callback : Option κ) :
    Ensures (sendRequest h m callback) l fun r l' =>
      let request := { m with token := l.session.tokenFor m }
      l'.session.endpoint.dedup = l.session.endpoint.dedup ∧
        Begins l.session.endpoint.exchanges request (.once callback)
          (r.map fun id => (id, request.token)) l'.session.endpoint.exchanges ∧
        l.Grows v (fun e => e.IsAside ∨
          ∃ id, r = .ok id ∧ e.Sends (· = { request with id })) l' := by
  refine (sendCorrelated_ensures hk m (.once callback)).bind ?_ ?_
  · rintro ⟨id, token⟩ l' ⟨hdedup, hbegins, hg⟩
    obtain rfl := hbegins.token_eq rfl
    refine ⟨hdedup, hbegins, hg.mono ?_⟩
    intro e he
    rcases he with he | ⟨_, _, hr, he⟩
    · exact .inl he
    · cases hr
      exact .inr ⟨id, rfl, he⟩
  · intro f l' hl'
    obtain ⟨hdedup, hbegins, hg⟩ := hl'
    refine ⟨hdedup, hbegins, hg.mono ?_⟩
    intro e he
    rcases he with he | ⟨_, _, hf, _⟩
    · exact .inl he
    · cases hf

end Action

theorem create_ok {v : ω → β} {h : Host ω} (hk : h.Keeps v) {config : Config} {w w' : ω}
    {s : Session κ} (hcreate : create h config w = (.ok s, w')) :
    v w' = v w ∧ s.config = config ∧ ∃ lastId, s.endpoint = .new config lastId := by
  have hview := hk.now w
  unfold create at hcreate
  split at hcreate
  · cases hcreate
  · rename_i now w₁ hnow
    rw [hnow] at hview
    have hopened := hk.openTransport w₁
    split at hcreate
    · cases hcreate
    · rename_i w₂ hopen
      rw [hopen] at hopened
      cases hcreate
      exact ⟨hopened.trans hview, rfl, _, rfl⟩

/-- Where clock and transport work, a session is created. -/
theorem create_of_now {h : Host ω} {config : Config} {w w₁ w₂ : ω} {now : Millis}
    (hnow : h.now w = (.ok now, w₁)) (hopen : h.openTransport w₁ = (.ok (), w₂)) :
    create h config w = (.ok
      { config
        endpoint := .new config (TokenGenerator.new config now).nextId.1
        tokens := (TokenGenerator.new config now).nextId.2
        pingDue := Millis.add now (config.keepalive.getD 0) : Session κ }, w₂) := by
  simp only [create, hnow, hopen]

end Session
end Coap
