import Coap.Proofs.Run

/-!
# Who the application answers

Whether the peer has authenticated, and who it is, is told by the credentials that were checked:
the last check decides, and nothing else that happens to a session touches it. Where credentials
are required a request reaches the application only after a check that accepted one.
-/
namespace Coap

variable {κ ω α β : Type}

/-- What the application was asked. -/
def Effect.asked? : Effect κ → Option (Method × Message)
  | .asked method request => some (method, request)
  | _ => none

/-- The credential that was presented. -/
def Effect.presented? : Effect κ → Option (String × String)
  | .presented tokenType token => some (tokenType, token)
  | _ => none

namespace Endpoint

variable {app : Application ω} {now : Millis} {m : Message} {e : Endpoint κ} {w : ω}

/-- The method, if the application is asked about the message. -/
def asks? (m : Message) (e : Endpoint κ) : Option Method :=
  if e.isDuplicate m then none else m.code.method?

theorem presented?_handle (app : Application ω) (now : Millis) (m : Message) (e : Endpoint κ)
    (w : ω) : (e.handle app now m w).effects.filterMap Effect.presented? = [] := by
  rw [List.filterMap_eq_nil_iff]
  intro f hf
  rcases handle_effects hf with ⟨n, rfl⟩ | ⟨method, rfl, -⟩ | ⟨c, rfl⟩ <;> rfl

theorem asked?_conclude {method : Method} {answer : Except String Message} :
    (conclude method m answer e w).effects.filterMap Effect.asked? = [(method, m)] := by
  cases answer with
  | error reason => rfl
  | ok answer =>
    rw [conclude]
    split <;> rfl

/-- A message asks the application at most once. -/
theorem asked?_handle (app : Application ω) (now : Millis) (m : Message) (e : Endpoint κ) (w : ω) :
    (e.handle app now m w).effects.filterMap Effect.asked? =
      (e.asks? m).toList.map fun method => (method, m) := by
  cases hasks : e.asks? m with
  | none =>
    rw [List.filterMap_eq_nil_iff.2]
    · rfl
    · intro f hf
      rcases handle_effects hf with ⟨n, rfl⟩ | ⟨method, rfl, hmethod, hnew⟩ | ⟨c, rfl⟩
      · rfl
      · rw [asks?, hnew, if_neg Bool.false_ne_true, hmethod] at hasks
        cases hasks
      · rfl
  | some method =>
    obtain ⟨hnew, hmethod⟩ : e.isDuplicate m ≠ true ∧ m.code.method? = some method := by
      rw [asks?] at hasks
      split at hasks
      · cases hasks
      · rename_i hnew
        exact ⟨hnew, hasks⟩
    rw [handle_request hmethod, request, if_neg hnew]
    exact asked?_conclude

end Endpoint

namespace Session

/-! ## What is watched -/

/-- What is known of the peer, and what was asked and presented so far, newest first. -/
structure Watch where
  auth : AuthState
  asked : List (Method × Message)
  presented : List (String × String)

def watch (l : Live κ ω) : Watch :=
  ⟨l.session.auth, l.history.filterMap Effect.asked?, l.history.filterMap Effect.presented?⟩

/-- A credential that was checked, as part of an identity. -/
structure Check where
  identity : Identity
  accepted : Bool
  deriving DecidableEq

namespace Check

def credentials (c : Check) : String × String := (c.identity.tokenType, c.identity.token)

/-- What is known of the peer after the check. -/
def auth (c : Check) : AuthState :=
  if c.accepted then { authenticated := true, identity := some c.identity } else {}

end Check

namespace Watch

def check (v : Watch) (c : Option Check) : Watch :=
  ⟨c.elim v.auth Check.auth, v.asked, c.toList.map Check.credentials ++ v.presented⟩

def ask (v : Watch) (q : Option (Method × Message)) : Watch :=
  ⟨v.auth, q.toList ++ v.asked, v.presented⟩

end Watch

namespace Action

variable {h : Host ω} {l l' : Live κ ω} {a : Action κ ω α}

/-- The action changes nothing of what is watched. -/
def Unseen (a : Action κ ω α) : Prop := ∀ l, watch (a l).2 = watch l

theorem Unseen.bind {f : α → Action κ ω β} (ha : Unseen a) (hf : ∀ x, Unseen (f x)) :
    Unseen (a >>= f) :=
  Leaves.bind ha hf

theorem pure_unseen (x : α) : Unseen (pure x : Action κ ω α) := fun _ => rfl

theorem throw_unseen (f : Failure) : Unseen (throw f : Action κ ω α) := fun _ => rfl

theorem session_unseen : Unseen (session : Action κ ω (Session κ)) := fun _ => rfl

theorem modifySession_unseen {f : Session κ → Session κ} (hf : ∀ s, (f s).auth = s.auth) :
    Unseen (modifySession f : Action κ ω Unit) := by
  intro l
  show Watch.mk (f l.session).auth _ _ = _
  rw [hf]
  rfl

theorem note_unseen (n : Notice) : Unseen (note n : Action κ ω Unit) := fun _ => rfl

theorem call_unseen (f : ω → α × ω) : Unseen (call f : Action κ ω α) := fun _ => rfl

theorem outcome_unseen (ha : Unseen a) : Unseen (outcome a) := ha

theorem now_unseen (h : Host ω) (during : Activity) :
    Unseen (now h during : Action κ ω Millis) := by
  refine (call_unseen _).bind fun r => ?_
  cases r with
  | error cause => exact throw_unseen _
  | ok now => exact pure_unseen now

theorem postponePing_unseen (now : Millis) : Unseen (postponePing now : Action κ ω Unit) := by
  apply modifySession_unseen
  intro s
  split <;> rfl

theorem armTimers_unseen : Unseen (armTimers : Action κ ω Unit) := by
  apply modifySession_unseen
  intro s
  split <;> rfl

theorem send_unseen (h : Host ω) (m : Message) (during : Activity) :
    Unseen (send h m during : Action κ ω Unit) := by
  unfold send
  split
  · exact throw_unseen _
  · refine (call_unseen _).bind fun r => ?_
    cases r with
    | error reason => exact throw_unseen _
    | ok _ => exact fun _ => rfl

theorem sweepDedup_unseen (now : Millis) : Unseen (sweepDedup now : Action κ ω Unit) := by
  refine session_unseen.bind fun s => Unseen.bind (fun _ => rfl) fun _ => ?_
  split
  · exact note_unseen _
  · exact pure_unseen ()

theorem actOn_unseen (h : Host ω) (event : Exchanges.Event) :
    Unseen (actOn h event : Action κ ω Unit) := by
  cases event with
  | retry m => exact (note_unseen _).bind fun _ => send_unseen h m _
  | abandoned id token =>
    refine (note_unseen _).bind fun _ => session_unseen.bind fun s => ?_
    split
    · exact fun _ => rfl
    · exact pure_unseen ()

theorem forM_actOn_unseen (h : Host ω) (events : List Exchanges.Event) :
    Unseen (events.forM (actOn h) : Action κ ω Unit) := by
  induction events with
  | nil => exact pure_unseen ()
  | cons event events ih => exact (actOn_unseen h event).bind fun _ => ih

theorem sweepExchanges_unseen (h : Host ω) (now : Millis) :
    Unseen (sweepExchanges h now : Action κ ω Unit) :=
  session_unseen.bind fun _ => Unseen.bind (fun _ => rfl) fun _ => forM_actOn_unseen h _

theorem ping_unseen (h : Host ω) (interval now : Millis) :
    Unseen (ping h interval now : Action κ ω Unit) := by
  refine session_unseen.bind fun _ => (note_unseen _).bind fun _ => ?_
  refine Unseen.bind (fun _ => rfl) fun _ => armTimers_unseen.bind fun _ => ?_
  exact Unseen.bind (fun _ => rfl) fun _ => send_unseen h _ _

theorem keepalive_unseen (h : Host ω) (now : Millis) :
    Unseen (keepalive h now : Action κ ω Unit) := by
  refine session_unseen.bind fun s => ?_
  split
  · split
    · exact ping_unseen h _ now
    · exact pure_unseen ()
  · exact pure_unseen ()

theorem tick_unseen (h : Host ω) : Unseen (tick h : Action κ ω Unit) :=
  (now_unseen h _).bind fun now => (sweepDedup_unseen now).bind fun _ =>
    (sweepExchanges_unseen h now).bind fun _ => keepalive_unseen h now

theorem transmit_unseen (h : Host ω) (m : Message) (now : Millis) :
    Unseen (transmit h m now : Action κ ω (MessageId × Token)) := by
  refine Unseen.bind (fun _ => rfl) fun _ => (outcome_unseen (send_unseen h m _)).bind fun r => ?_
  cases r with
  | error f => exact Unseen.bind (fun _ => rfl) fun _ => throw_unseen f
  | ok _ =>
    exact (postponePing_unseen now).bind fun _ => armTimers_unseen.bind fun _ => pure_unseen _

theorem sendCorrelated_unseen (h : Host ω) (m : Message) (delivery : Delivery κ) :
    Unseen (sendCorrelated h m delivery : Action κ ω (MessageId × Token)) := by
  rw [sendCorrelated_eq]
  refine Unseen.bind ?_ fun m => (now_unseen h _).bind fun now => ?_
  · unfold ensureToken
    split
    · exact session_unseen.bind fun _ => Unseen.bind (fun _ => rfl) fun _ => pure_unseen _
    · exact pure_unseen m
  · refine Unseen.bind (fun _ => rfl) fun id? => ?_
    cases id? with
    | none => exact throw_unseen _
    | some id => exact transmit_unseen h _ now

theorem atPresent_unseen (h : Host ω) {work : Millis → Action κ ω Unit}
    (hwork : ∀ now, Unseen (work now)) : Unseen (atPresent h work) := by
  refine (outcome_unseen ((now_unseen h _).bind hwork)).bind fun r => ?_
  cases r with
  | error f => exact note_unseen _
  | ok _ => exact pure_unseen ()

theorem dedupTick_unseen (h : Host ω) : Unseen (dedupTick h : Action κ ω Unit) := by
  refine session_unseen.bind fun s => ?_
  split
  · refine (atPresent_unseen h sweepDedup_unseen).bind fun _ => modifySession_unseen fun s => ?_
    split <;> rfl
  · exact pure_unseen ()

theorem exchangesTick_unseen (h : Host ω) : Unseen (exchangesTick h : Action κ ω Unit) := by
  refine session_unseen.bind fun s => ?_
  split
  · refine (atPresent_unseen h (sweepExchanges_unseen h)).bind fun _ =>
      modifySession_unseen fun s => ?_
    split <;> rfl
  · exact pure_unseen ()

theorem keepaliveTick_unseen (h : Host ω) : Unseen (keepaliveTick h : Action κ ω Unit) := by
  refine session_unseen.bind fun s => ?_
  split
  · exact atPresent_unseen h (keepalive_unseen h)
  · exact pure_unseen ()

theorem dispose_unseen (h : Host ω) : Unseen (dispose h : Action κ ω Unit) := by
  refine Unseen.bind (fun _ => rfl) fun _ => (call_unseen _).bind fun r => ?_
  cases r with
  | error reason => exact note_unseen _
  | ok _ => exact pure_unseen ()

theorem decode_unseen (h : Host ω) (datagram : Bytes) :
    Unseen (decode h datagram : Action κ ω (Millis × Message)) := by
  refine (now_unseen h _).bind fun now => (postponePing_unseen now).bind fun _ => ?_
  cases Message.read datagram with
  | error cause => exact (note_unseen _).bind fun _ => throw_unseen _
  | ok m => exact (note_unseen _).bind fun _ => pure_unseen _

end Action

/-! ## Checks -/

/-- The check of the credential that a message carries, if one is made. -/
def checkOf? (h : Host ω) (m : Message) (force : Bool) (l : Live κ ω) : Option Check :=
  if !force && l.session.isAuthenticated then none
  else
    match Query.ofMessage m with
    | .error _ => none
    | .ok q =>
      q.credentials?.map fun (tokenType, token) =>
        ⟨⟨tokenType, token, q.indexes⟩, (h.authenticate tokenType token l.world).1⟩

/-- The check that is made of a datagram. -/
def receiveCheck? (h : Host ω) (datagram : Bytes) (l : Live κ ω) : Option Check :=
  match Action.decode h datagram l with
  | (.error _, _) => none
  | (.ok (_, m), l) => if m.kind = .request then checkOf? h m false l else none

def check? (h : Host ω) (l : Live κ ω) : Operation κ → Option Check
  | .ensureAuthentication m force => checkOf? h m force l
  | .receive datagram => receiveCheck? h datagram l
  | .collect => (Action.collected? h l).bind fun (datagram, l) => receiveCheck? h datagram l
  | _ => none

namespace Action

variable {h : Host ω} {l l' : Live κ ω}

theorem present_ensures (q : Query) (tokenType token : String) :
    Ensures (present h q tokenType token) l fun r l' =>
      watch l' = (watch l).check
          (some ⟨⟨tokenType, token, q.indexes⟩, (h.authenticate tokenType token l.world).1⟩) ∧
        (r = .ok () → l'.session.isAuthenticated = true) := by
  simp only [present, ensures_bind, ensures_emit, ensures_call, ensures_ite,
    ensures_modifySession, ensures_note, ensures_throw]
  cases (h.authenticate tokenType token l.world).1
  · exact ⟨rfl, fun hr => by cases hr⟩
  · exact ⟨rfl, fun _ => rfl⟩

/-- Where credentials are required, a peer that is let pass has authenticated. -/
theorem ensureAuthentication_ensures (m : Message) (force : Bool) :
    Ensures (ensureAuthentication h m force) l fun r l' =>
      watch l' = (watch l).check (checkOf? h m force l) ∧
        (h.credentialsRequired = true → r = .ok () → l'.session.isAuthenticated = true) := by
  simp only [ensureAuthentication, ensures_bind, ensures_session, ensures_ite, checkOf?]
  split
  · rename_i hknown
    exact ⟨rfl, fun _ _ => (Bool.and_eq_true_iff.1 hknown).2⟩
  · cases Query.ofMessage m with
    | error cause => exact ⟨rfl, fun _ hr => by cases hr⟩
    | ok q =>
      rcases hcredentials : q.credentials? with _ | ⟨tokenType, token⟩
      · simp only [hcredentials, ensures_ite, ensures_bind, ensures_note, ensures_throw]
        split
        · exact ⟨rfl, fun _ hr => by cases hr⟩
        · rename_i hopen
          exact ⟨rfl, fun hrequired => absurd hrequired hopen⟩
      · simp only [hcredentials]
        apply (present_ensures q tokenType token).imp
        exact fun _ _ hl' => ⟨hl'.1, fun _ => hl'.2⟩

theorem authorize_ensures (m : Message) :
    Ensures (authorize h m) l fun r l' =>
      watch l' = (watch l).check (if m.kind = .request then checkOf? h m false l else none) ∧
        (m.kind = .request → h.credentialsRequired = true → r = .ok () →
          l'.session.isAuthenticated = true) := by
  by_cases hkind : m.kind = .request
  · simp only [authorize, hkind, if_true]
    apply (ensureAuthentication_ensures m false).imp
    exact fun _ _ hl' => ⟨hl'.1, fun _ => hl'.2⟩
  · simp only [authorize, hkind, if_false]
    exact ⟨rfl, fun h => h.elim⟩

/-- A request that is let in comes from a peer that passed the check. -/
theorem letIn_ensures (datagram : Bytes) :
    Ensures (letIn h datagram) l fun r l' =>
      watch l' = (watch l).check (receiveCheck? h datagram l) ∧
        ∀ now m, r = .ok (now, m) → m.kind = .request → h.credentialsRequired = true →
          l'.session.isAuthenticated = true := by
  have hdecode := decode_unseen (κ := κ) h datagram l
  rw [letIn, receiveCheck?]
  rcases hrun : decode h datagram l with ⟨f | ⟨now, m⟩, l₁⟩ <;> rw [hrun] at hdecode
  · rw [Ensures, bind_of_error hrun]
    exact ⟨hdecode, fun _ _ hr => by cases hr⟩
  · have hauthorize := authorize_ensures (h := h) (l := l₁) m
    rw [Ensures, bind_of_ok hrun, ← hdecode]
    dsimp only
    rcases hrest : authorize h m l₁ with ⟨f | _, l₂⟩
    · rw [bind_of_error hrest]
      exact ⟨(ensures_of_eq hauthorize hrest).1, fun _ _ hr => by cases hr⟩
    · rw [bind_of_ok hrest]
      refine ⟨(ensures_of_eq hauthorize hrest).1, ?_⟩
      intro now' m' hr hkind hrequired
      cases hr
      exact (ensures_of_eq hauthorize hrest).2 hkind hrequired rfl

theorem watch_respond (h : Host ω) (now : Millis) (m : Message) (l : Live κ ω) :
    watch (respond h now m l).2 =
      (watch l).ask ((l.session.endpoint.asks? m).map fun method => (method, m)) := by
  have hhandle : handle h now m l =
      (.ok (l.session.endpoint.handle h.application now m l.world).reply,
        l.after (l.session.endpoint.handle h.application now m l.world)) := rfl
  rw [respond, bind_of_ok hhandle]
  refine (armTimers_unseen.bind (fun _ => ?_) _).trans ?_
  · split
    · exact (send_unseen h _ _).bind fun _ => pure_unseen _
    · exact pure_unseen _
  simp only [watch, Live.after, List.filterMap_append, List.filterMap_reverse,
    Endpoint.asked?_handle, Endpoint.presented?_handle]
  cases l.session.endpoint.asks? m <;> rfl

end Action

/-- The application is asked about a message. -/
structure Question (κ ω : Type) where
  arrival : Arrival κ ω
  method : Method

def Question.asked (q : Question κ ω) : Method × Message := (q.method, q.arrival.message)

def Arrival.question? (a : Arrival κ ω) : Option (Question κ ω) :=
  (a.state.session.endpoint.asks? a.message).map fun method => ⟨a, method⟩

def question? (h : Host ω) (l : Live κ ω) (op : Operation κ) : Option (Question κ ω) :=
  (arrival? h l op).bind Arrival.question?

theorem watch_passOver (r : Except Failure α × Live κ ω) :
    watch (Action.passOver r) = watch r.2 := by
  rcases r with ⟨f | x, l⟩ <;> rfl

theorem watch_receive (h : Host ω) (datagram : Bytes) (l : Live κ ω) :
    watch (Action.receive h datagram l).2 =
      ((watch l).check (receiveCheck? h datagram l)).ask
        (((arrivalOf? h datagram l).bind Arrival.question?).map Question.asked) := by
  obtain ⟨hadmitted, -⟩ := Action.letIn_ensures (h := h) (l := l) datagram
  rcases Action.receive_cases h datagram l with ⟨hnone, hreceive⟩ | ⟨a, ha, hletIn, hreceive⟩
  · rw [hnone, hreceive, hadmitted]
    rfl
  · rw [ha, hreceive, Action.watch_respond, ← hletIn, hadmitted, hletIn, Option.bind_some,
      Arrival.question?, Option.map_map]
    rfl

theorem watch_perform (h : Host ω) (l : Live κ ω) (op : Operation κ) :
    watch (perform h l op) =
      ((watch l).check (check? h l op)).ask ((question? h l op).map Question.asked) := by
  cases op with
  | receive datagram => exact watch_receive h datagram l
  | collect =>
    rcases Action.receiveReady_cases h l with ⟨hnone, hends⟩ | ⟨datagram, world, hsome, hround⟩
    · rw [perform, check?, question?, arrival?, hnone, hends]
      rfl
    · rw [perform, check?, question?, arrival?, hsome, hround]
      exact (watch_passOver _).trans (watch_receive h datagram { l with world })
  | ensureAuthentication m force =>
    exact (Action.ensureAuthentication_ensures (h := h) (l := l) m force).1
  | tick => exact Action.tick_unseen h l
  | sendRequest m callback =>
    rw [perform, Action.sendRequest, Action.return_eq]
    exact Action.sendCorrelated_unseen h m _ l
  | observe m callback =>
    rw [perform, Action.observe, Action.return_eq]
    exact Action.sendCorrelated_unseen h _ _ l
  | unobserve token => rfl
  | refreshKeepalive =>
    exact (Action.now_unseen h _).bind Action.postponePing_unseen l
  | setListener listener => rfl
  | start => exact Action.Unseen.bind (fun _ => rfl) (fun _ => Action.armTimers_unseen) l
  | dedupTick => exact Action.dedupTick_unseen h l
  | exchangesTick => exact Action.exchangesTick_unseen h l
  | keepaliveTick => exact Action.keepaliveTick_unseen h l
  | dispose => exact Action.dispose_unseen h l

/-! ## Runs -/

def questions (h : Host ω) (l : Live κ ω) : List (Operation κ) → List (Question κ ω)
  | [] => []
  | op :: ops => (question? h l op).toList ++ questions h (perform h l op) ops

def checks (h : Host ω) (l : Live κ ω) : List (Operation κ) → List Check
  | [] => []
  | op :: ops => (check? h l op).toList ++ checks h (perform h l op) ops

/-- What is watched after more checks and questions. -/
def Watch.after (v : Watch) (checks : List Check) (questions : List (Method × Message)) : Watch :=
  ⟨checks.getLast?.elim v.auth Check.auth, questions.reverse ++ v.asked,
    (checks.map Check.credentials).reverse ++ v.presented⟩

theorem Watch.check_ask_after (v : Watch) (c : Option Check) (q : Option (Method × Message))
    (checks : List Check) (questions : List (Method × Message)) :
    ((v.check c).ask q).after checks questions =
      v.after (c.toList ++ checks) (q.toList ++ questions) := by
  have hauth : checks.getLast?.elim (c.elim v.auth Check.auth) Check.auth =
      (c.toList ++ checks).getLast?.elim v.auth Check.auth := by
    rw [List.getLast?_append]
    cases checks.getLast? <;> cases c <;> rfl
  have hasked : questions.reverse ++ (q.toList ++ v.asked) =
      (q.toList ++ questions).reverse ++ v.asked := by
    cases q <;> simp
  have hpresented : (checks.map Check.credentials).reverse ++
      (c.toList.map Check.credentials ++ v.presented) =
        ((c.toList ++ checks).map Check.credentials).reverse ++ v.presented := by
    cases c <;> simp
  simp only [Watch.after, Watch.check, Watch.ask, hauth, hasked, hpresented]

theorem watch_run (h : Host ω) (l : Live κ ω) (ops : List (Operation κ)) :
    watch (run h l ops) =
      (watch l).after (checks h l ops) ((questions h l ops).map Question.asked) := by
  induction ops generalizing l with
  | nil => rfl
  | cons op ops ih =>
    show watch (run h (perform h l op) ops) = _
    rw [ih, watch_perform, Watch.check_ask_after, checks, questions, List.map_append]
    cases question? h l op <;> rfl

theorem authenticated_of_arrivalOf? {h : Host ω} {datagram : Bytes} {l : Live κ ω}
    {a : Arrival κ ω} (ha : arrivalOf? h datagram l = some a) (hkind : a.message.kind = .request)
    (hrequired : h.credentialsRequired = true) : a.state.session.isAuthenticated = true := by
  obtain ⟨-, hadmitted⟩ := Action.letIn_ensures (h := h) (l := l) datagram
  rw [arrivalOf?] at ha
  rcases hletIn : Action.letIn h datagram l with ⟨f | ⟨now, m⟩, l₁⟩ <;>
    simp only [hletIn] at ha hadmitted <;> cases ha
  exact hadmitted now m rfl hkind hrequired

/-- Where credentials are required, a request is asked about only once the peer has
authenticated. -/
theorem authenticated_of_question? {h : Host ω} {l : Live κ ω} {op : Operation κ}
    {q : Question κ ω} (hq : question? h l op = some q) (hrequired : h.credentialsRequired = true) :
    q.arrival.state.session.isAuthenticated = true := by
  obtain ⟨a, ha, hasks⟩ := Option.bind_eq_some_iff.1 hq
  obtain ⟨method, hmethod, rfl⟩ := Option.map_eq_some_iff.1 hasks
  have hkind : a.message.kind = .request := by
    rw [Endpoint.asks?] at hmethod
    split at hmethod
    · cases hmethod
    · exact Code.kind_of_method? hmethod
  cases op with
  | receive datagram => exact authenticated_of_arrivalOf? ha hkind hrequired
  | collect =>
    obtain ⟨⟨datagram, l₁⟩, -, ha⟩ := Option.bind_eq_some_iff.1 ha
    exact authenticated_of_arrivalOf? ha hkind hrequired
  | _ => cases ha

theorem authenticated_of_mem_questions {h : Host ω} {l : Live κ ω} {ops : List (Operation κ)}
    (hrequired : h.credentialsRequired = true) {q : Question κ ω} (hq : q ∈ questions h l ops) :
    q.arrival.state.session.isAuthenticated = true := by
  induction ops generalizing l with
  | nil => cases hq
  | cons op ops ih =>
    rcases List.mem_append.1 hq with hq | hq
    · exact authenticated_of_question? (Option.mem_toList.1 hq) hrequired
    · exact ih hq

theorem watch_create {h : Host ω} {config : Config} {w w' : ω} {s : Session κ}
    (hcreate : create h config w = (.ok s, w')) : watch ⟨s, w', []⟩ = ⟨{}, [], []⟩ := by
  unfold create at hcreate
  split at hcreate
  · cases hcreate
  · split at hcreate
    · cases hcreate
    · cases hcreate
      rfl

/-- **The application answers only authenticated peers, and a peer is who its last check says.**
After any run of a session the history holds the questions that the application was asked and the
credentials that were presented, in order. Where credentials are required, each question was asked
in a state in which the peer had authenticated.

The peer has authenticated exactly if it has an identity, and it has one exactly if the last
credential that was checked was accepted: that is the identity, with the index pairs of the message
that carried it. -/
theorem authentication_gate {h : Host ω} {config : Config} {w w' : ω} {s : Session κ}
    (hcreate : create h config w = (.ok s, w')) (ops : List (Operation κ)) :
    let l := run h ⟨s, w', []⟩ ops
    let questions := questions h ⟨s, w', []⟩ ops
    let checks := checks h ⟨s, w', []⟩ ops
    (l.history.filterMap Effect.asked?).reverse = questions.map Question.asked ∧
    (l.history.filterMap Effect.presented?).reverse = checks.map Check.credentials ∧
    (h.credentialsRequired = true →
      ∀ q ∈ questions, q.arrival.state.session.isAuthenticated = true) ∧
    (l.session.isAuthenticated = true ↔ l.session.identity.isSome) ∧
    ∀ i, l.session.identity = some i ↔ checks.getLast? = some ⟨i, true⟩ := by
  intro l questions checks
  have hwatch : watch l = (watch ⟨s, w', []⟩).after checks (questions.map Question.asked) :=
    watch_run h ⟨s, w', []⟩ ops
  rw [watch_create hcreate] at hwatch
  have hauth : l.session.auth = checks.getLast?.elim {} Check.auth := congrArg Watch.auth hwatch
  have hasked := congrArg Watch.asked hwatch
  have hpresented := congrArg Watch.presented hwatch
  refine ⟨?_, ?_, fun hrequired q => authenticated_of_mem_questions hrequired, ?_, ?_⟩
  · rw [← List.reverse_reverse (questions.map Question.asked)]
    exact congrArg List.reverse (hasked.trans (List.append_nil _))
  · rw [← List.reverse_reverse (checks.map Check.credentials)]
    exact congrArg List.reverse (hpresented.trans (List.append_nil _))
  · rw [isAuthenticated, identity, hauth]
    rcases checks.getLast? with _ | ⟨i, _ | _⟩ <;> simp [Check.auth]
  · intro i
    rw [identity, hauth]
    rcases checks.getLast? with _ | ⟨i', _ | _⟩ <;> simp [Check.auth]

/-- A request without a credential, one with token type, token and an index pair, and again one
without. -/
def sampleVisit : List (Operation Unit) :=
  [.receive [80, 1, 0, 1],
    .receive [80, 1, 0, 2, 214, 2, 116, 116, 61, 106, 119, 116, 9, 116, 61, 108, 101, 116, 109, 101,
      105, 110, 8, 105, 61, 115, 105, 116, 101, 59, 55],
    .receive [80, 1, 0, 3]]

theorem authentication_gate_sample :
    let start : Live Unit Nat := ⟨sampleSession, 2000, []⟩
    create sampleHost {} 1000 = (.ok sampleSession, 2000) ∧
      (questions sampleHost start sampleVisit).length = 2 ∧
      (∀ q ∈ questions sampleHost start sampleVisit,
        q.arrival.state.session.isAuthenticated = true) ∧
      (run sampleHost start sampleVisit).session.identity =
        some ⟨"jwt", "letmein", [("site", "7")]⟩ := by
  intro start
  have hlast : (checks sampleHost start sampleVisit).getLast? =
      some ⟨⟨"jwt", "letmein", [("site", "7")]⟩, true⟩ := by decide +kernel
  obtain ⟨-, -, hasked, -, hidentity⟩ := authentication_gate sampleSession_created sampleVisit
  exact ⟨sampleSession_created, by decide +kernel, hasked rfl, (hidentity _).2 hlast⟩

end Session
end Coap
