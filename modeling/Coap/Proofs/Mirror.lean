import Coap.Proofs.Conduct

/-!
A host whose world holds more than another's, and which does in the part that they share what the
other one does. A session does the same with either of them, so that a world may be given a log
for the statements' sake.
-/
namespace Coap

variable {κ ω ω' α β : Type} {v : ω' → ω} {g : Host ω'} {h : Host ω}

/-- `g` does in the part `v` of its world what `h` does. -/
structure Host.Mirrors (g : Host ω') (h : Host ω) (v : ω' → ω) : Prop where
  tickUnit : g.tickUnit = h.tickUnit
  credentialsRequired : g.credentialsRequired = h.credentialsRequired
  readClock : ∀ w, h.readClock (v w) = ((g.readClock w).1, v (g.readClock w).2)
  openTransport : ∀ w, h.openTransport (v w) = ((g.openTransport w).1, v (g.openTransport w).2)
  transmit : ∀ b w, h.transmit b (v w) = ((g.transmit b w).1, v (g.transmit b w).2)
  application : ∀ method m w, h.application method m (v w) =
    ((g.application method m w).1, v (g.application method m w).2)
  authenticate : ∀ tokenType token w, h.authenticate tokenType token (v w) =
    ((g.authenticate tokenType token w).1, v (g.authenticate tokenType token w).2)

theorem Host.Mirrors.now (hm : g.Mirrors h v) (w : ω') :
    h.now (v w) = ((g.now w).1, v (g.now w).2) := by
  unfold Host.now
  rw [hm.readClock w, hm.tickUnit]
  rcases g.readClock w with ⟨_ | ticks, w'⟩
  · rfl
  · cases hmillis : h.tickUnit.millis? ticks <;> simp only [hmillis]

/-- The session with the other host is created as this one is. -/
theorem Host.Mirrors.create (hm : g.Mirrors h v) (config : Config) (w : ω') :
    Session.create (κ := κ) h config (v w) =
      ((Session.create (κ := κ) g config w).1, v (Session.create (κ := κ) g config w).2) := by
  unfold Session.create
  rw [hm.now w]
  rcases g.now w with ⟨_ | now, w'⟩
  · rfl
  · simp only [hm.openTransport w']
    rcases g.openTransport w' with ⟨_ | _, w''⟩ <;> rfl

def Turn.map (v : ω' → ω) (t : Turn κ ω') : Turn κ ω := ⟨t.endpoint, v t.world, t.reply, t.effects⟩

theorem Endpoint.conclude_map (method : Method) (m : Message) (answer : Except String Message)
    (e : Endpoint κ) (w : ω') :
    conclude method m answer e (v w) = (conclude method m answer e w).map v := by
  cases answer with
  | error reason => rfl
  | ok answer =>
    by_cases hsuppressed : suppressed m answer = true
    · simp only [conclude, if_pos hsuppressed]
      rfl
    · simp only [conclude, if_neg hsuppressed]
      rfl

theorem Endpoint.response_map (now : Millis) (m : Message) (e : Endpoint κ) (w : ω') :
    e.response now m (v w) = (e.response now m w).map v := by
  unfold response
  cases m.kind with
  | empty => rfl
  | request => rfl
  | response =>
    by_cases hduplicate : (e.acknowledged m).1.isDuplicate m = true
    · simp only [if_pos hduplicate]
      rfl
    · simp only [if_neg hduplicate]
      rfl

theorem Host.Mirrors.request (hm : g.Mirrors h v) (now : Millis) (method : Method) (m : Message)
    (e : Endpoint κ) (w : ω') :
    e.request h.application now method m (v w) =
      (e.request g.application now method m w).map v := by
  unfold Endpoint.request
  by_cases hduplicate : e.isDuplicate m = true
  · simp only [if_pos hduplicate]
    rfl
  · simp only [if_neg hduplicate, hm.application method m w]
    exact Endpoint.conclude_map method m _ _ _

/-- The application is all that an endpoint sees of the host. -/
theorem Host.Mirrors.handle (hm : g.Mirrors h v) (now : Millis) (m : Message) (e : Endpoint κ)
    (w : ω') : e.handle h.application now m (v w) = (e.handle g.application now m w).map v := by
  unfold Endpoint.handle Endpoint.handleAs
  split
  · rfl
  · exact hm.request now _ m e w
  · rfl
  · exact Endpoint.response_map now m e w

namespace Session

def Live.map (v : ω' → ω) (l : Live κ ω') : Live κ ω := ⟨l.session, v l.world, l.history⟩

namespace Action

/-- `a` does in the part `v` of its world what `b` does. -/
def Mirrors (v : ω' → ω) (a : Action κ ω' α) (b : Action κ ω α) : Prop :=
  ∀ l, b (l.map v) = ((a l).1, (a l).2.map v)

theorem Mirrors.bind {a : Action κ ω' α} {b : Action κ ω α} {f : α → Action κ ω' β}
    {f' : α → Action κ ω β} (ha : Mirrors v a b) (hf : ∀ x, Mirrors v (f x) (f' x)) :
    Mirrors v (a >>= f) (b >>= f') := by
  intro l
  have hrun : (a >>= f) l = ExceptT.bindCont f (a l).1 (a l).2 := rfl
  have hrun' : (b >>= f') (l.map v) =
      ExceptT.bindCont f' (b (l.map v)).1 (b (l.map v)).2 := rfl
  rw [hrun, hrun', ha l]
  cases (a l).1 with
  | ok x => exact hf x (a l).2
  | error e => rfl

theorem Mirrors.ite {c : Prop} [Decidable c] {a a' : Action κ ω' α} {b b' : Action κ ω α}
    (h : Mirrors v a b) (h' : Mirrors v a' b') :
    Mirrors v (if c then a else a') (if c then b else b') := by
  by_cases hc : c
  · rwa [if_pos hc, if_pos hc]
  · rwa [if_neg hc, if_neg hc]

section
variable {κ : Type}

theorem pure_mirrors (x : α) : Mirrors (κ := κ) v (pure x) (pure x) := fun _ => rfl

theorem throw_mirrors (e : Failure) :
    Mirrors (κ := κ) (α := α) v (throw e) (throw e) := fun _ => rfl

theorem session_mirrors : Mirrors (κ := κ) v session session := fun _ => rfl

theorem modifySession_mirrors (f : Session κ → Session κ) :
    Mirrors v (modifySession f) (modifySession f) := fun _ => rfl

theorem emit_mirrors (es : List (Effect κ)) : Mirrors v (emit es) (emit es) := fun _ => rfl

theorem note_mirrors (n : Notice) : Mirrors (κ := κ) v (note n) (note n) := fun _ => rfl

theorem call_mirrors {f : ω' → α × ω'} {f' : ω → α × ω}
    (hf : ∀ w, f' (v w) = ((f w).1, v (f w).2)) : Mirrors (κ := κ) v (call f) (call f') := by
  intro l
  have hrun : call f' (l.map v) =
      (.ok (f' (v l.world)).1, { l.map v with world := (f' (v l.world)).2 }) := rfl
  rw [hrun, hf]
  rfl

theorem now_mirrors (hm : g.Mirrors h v) (during : Activity) :
    Mirrors (κ := κ) v (now g during) (now h during) := by
  refine (call_mirrors hm.now).bind ?_
  intro r
  cases r with
  | ok now => exact pure_mirrors now
  | error cause => exact throw_mirrors _

theorem send_mirrors (hm : g.Mirrors h v) (m : Message) (during : Activity) :
    Mirrors (κ := κ) v (send g m during) (send h m during) := by
  unfold send
  cases m.write with
  | error cause => exact throw_mirrors _
  | ok datagram =>
    refine (call_mirrors (hm.transmit datagram)).bind ?_
    intro r
    cases r with
    | error reason => exact throw_mirrors _
    | ok _ => exact emit_mirrors _

theorem present_mirrors (hm : g.Mirrors h v) (q : Query) (tokenType token : String) :
    Mirrors (κ := κ) v (present g q tokenType token) (present h q tokenType token) := by
  refine (emit_mirrors _).bind fun _ => (call_mirrors (hm.authenticate tokenType token)).bind ?_
  intro accepted
  apply Mirrors.ite
  · exact (modifySession_mirrors _).bind fun _ => note_mirrors _
  · exact (note_mirrors _).bind fun _ => (modifySession_mirrors _).bind fun _ => throw_mirrors _

theorem ensureAuthentication_mirrors (hm : g.Mirrors h v) (m : Message) (force : Bool) :
    Mirrors (κ := κ) v (ensureAuthentication g m force) (ensureAuthentication h m force) := by
  refine session_mirrors.bind fun s => .ite (pure_mirrors ()) ?_
  cases Query.ofMessage m with
  | error cause => exact throw_mirrors _
  | ok q =>
    cases hcredentials : q.credentials? with
    | some credentials =>
      simp only [hcredentials]
      exact present_mirrors hm q _ _
    | none =>
      simp only [hcredentials, hm.credentialsRequired]
      exact .ite ((note_mirrors _).bind fun _ => throw_mirrors _) (pure_mirrors ())

theorem authorize_mirrors (hm : g.Mirrors h v) (m : Message) :
    Mirrors (κ := κ) v (authorize g m) (authorize h m) :=
  .ite (ensureAuthentication_mirrors hm m false) (pure_mirrors ())

theorem handle_mirrors (hm : g.Mirrors h v) (now : Millis) (m : Message) :
    Mirrors (κ := κ) v (handle g now m) (handle h now m) := by
  intro l
  have hrun : handle h now m (l.map v) =
      (.ok (l.session.endpoint.handle h.application now m (v l.world)).reply,
        (l.map v).after (l.session.endpoint.handle h.application now m (v l.world))) := rfl
  rw [hrun, hm.handle]
  rfl

theorem respond_mirrors (hm : g.Mirrors h v) (now : Millis) (m : Message) :
    Mirrors (κ := κ) v (respond g now m) (respond h now m) := by
  refine (handle_mirrors hm now m).bind fun reply => (modifySession_mirrors _).bind fun _ => ?_
  cases reply with
  | none => exact pure_mirrors _
  | some r => exact (send_mirrors hm r _).bind fun _ => pure_mirrors _

theorem receive_mirrors (hm : g.Mirrors h v) (datagram : Bytes) :
    Mirrors (κ := κ) v (receive g datagram) (receive h datagram) := by
  rw [receive_eq, receive_eq]
  refine (now_mirrors hm _).bind fun now => (modifySession_mirrors _).bind fun _ => ?_
  cases Message.read datagram with
  | error cause => exact (note_mirrors _).bind fun _ => throw_mirrors _
  | ok m =>
    exact (note_mirrors _).bind fun _ => (authorize_mirrors hm m).bind fun _ =>
      respond_mirrors hm now m

theorem sweepDedup_mirrors (now : Millis) :
    Mirrors (κ := κ) v (sweepDedup now) (sweepDedup now) := by
  refine session_mirrors.bind fun s => (modifySession_mirrors _).bind fun _ => ?_
  exact .ite (note_mirrors _) (pure_mirrors ())

theorem actOn_mirrors (hm : g.Mirrors h v) (event : Exchanges.Event) :
    Mirrors (κ := κ) v (actOn g event) (actOn h event) := by
  cases event with
  | retry m => exact (note_mirrors _).bind fun _ => send_mirrors hm m _
  | abandoned id token =>
    refine (note_mirrors _).bind fun _ => session_mirrors.bind fun s => ?_
    cases s.listener with
    | none => exact pure_mirrors ()
    | some listener => exact emit_mirrors _

theorem forM_actOn_mirrors (hm : g.Mirrors h v) (events : List Exchanges.Event) :
    Mirrors (κ := κ) v (events.forM (actOn g)) (events.forM (actOn h)) := by
  induction events with
  | nil => exact pure_mirrors _
  | cons event events ih => exact (actOn_mirrors hm event).bind fun _ => ih

theorem sweepExchanges_mirrors (hm : g.Mirrors h v) (now : Millis) :
    Mirrors (κ := κ) v (sweepExchanges g now) (sweepExchanges h now) :=
  session_mirrors.bind fun s => (modifySession_mirrors _).bind fun _ =>
    forM_actOn_mirrors hm (s.endpoint.exchanges.sweep now).1

theorem keepalive_mirrors (hm : g.Mirrors h v) (now : Millis) :
    Mirrors (κ := κ) v (keepalive g now) (keepalive h now) := by
  refine session_mirrors.bind fun s => ?_
  cases s.config.keepalive with
  | none => exact pure_mirrors ()
  | some interval =>
    refine .ite (session_mirrors.bind fun s' => ?_) (pure_mirrors ())
    exact (note_mirrors _).bind fun _ => (modifySession_mirrors _).bind fun _ =>
      (modifySession_mirrors _).bind fun _ => (modifySession_mirrors _).bind fun _ =>
        send_mirrors hm _ _

theorem tick_mirrors (hm : g.Mirrors h v) : Mirrors (κ := κ) v (tick g) (tick h) :=
  (now_mirrors hm _).bind fun now => (sweepDedup_mirrors now).bind fun _ =>
    (sweepExchanges_mirrors hm now).bind fun _ => keepalive_mirrors hm now

end

end Action
end Session
end Coap
