import Coap.Proofs.Authentication

/-!
# After a refusal

A peer whose message is refused for want of a valid credential has not authenticated, and where
credentials are required the application is not asked again before one is accepted. There is one way
past this: a check that is forced on a peer that has authenticated, by a message that carries no
credential. It is refused like the others and takes nothing away, so the peer goes on as before.
-/
namespace Coap

variable {κ ω : Type}

/-- The credential that a message carries, if its query can be read and is complete. -/
def Message.credentials? (m : Message) : Option (String × String) :=
  (Query.ofMessage m).toOption.bind (·.credentials?)

namespace Session

variable {h : Host ω} {m : Message} {force : Bool} {l l' : Live κ ω} {f : Failure}
  {op : Operation κ} {ops : List (Operation κ)}

/-! ## What a refusal leaves -/

/-- Why a peer is not let pass, and the state that is left. -/
inductive Denied (h : Host ω) (m : Message) (l : Live κ ω) : Cause → Live κ ω → Prop
  | malformed {cause : Query.Error} (hquery : Query.ofMessage m = .error cause) :
    Denied h m l (.invalidQuery cause) l
  | missing (hnone : m.credentials? = none) :
    Denied h m l .unauthenticated { l with history := .noted (.noCredentials m) :: l.history }
  | rejected {tokenType token : String} {w : ω}
    (hcredentials : m.credentials? = some (tokenType, token))
    (hrejects : h.authenticate tokenType token l.world = (false, w)) :
    Denied h m l .unauthenticated
      { session := { l.session with auth := {} }
        world := w
        history :=
          .noted (.credentialRejected tokenType) :: .presented tokenType token :: l.history }

namespace Action

theorem present_denied {q : Query} {tokenType token : String}
    (hcredentials : m.credentials? = some (tokenType, token)) :
    Ensures (present h q tokenType token) l fun r l' =>
      ∀ f, r = .error f → f.during = .authenticating ∧ Denied h m l f.cause l' := by
  simp only [present, ensures_bind, ensures_emit, ensures_call, ensures_ite,
    ensures_modifySession, ensures_note, ensures_throw]
  rcases hanswer : h.authenticate tokenType token l.world with ⟨accepted, w⟩
  cases accepted with
  | true =>
    intro f hf
    cases hf
  | false =>
    intro f hf
    cases hf
    exact ⟨rfl, .rejected hcredentials hanswer⟩

/-- A peer that has authenticated is denied only where the check is forced. -/
theorem ensureAuthentication_denied (h : Host ω) (m : Message) (force : Bool) (l : Live κ ω) :
    Ensures (ensureAuthentication h m force) l fun r l' => ∀ f, r = .error f →
      (l.session.isAuthenticated = true → force = true) ∧
        f.during = .authenticating ∧ Denied h m l f.cause l' := by
  simp only [ensureAuthentication, ensures_bind, ensures_session, ensures_ite]
  split
  · intro f hf
    cases hf
  · rename_i hasked
    have hforced : l.session.isAuthenticated = true → force = true := by
      intro hknown
      rw [hknown, Bool.and_true, Bool.not_eq_true, Bool.not_eq_false'] at hasked
      exact hasked
    cases hquery : Query.ofMessage m with
    | error cause =>
      intro f hf
      cases hf
      exact ⟨hforced, rfl, .malformed hquery⟩
    | ok q =>
      have hcarried : m.credentials? = q.credentials? := by
        rw [Message.credentials?, hquery]
        rfl
      rcases hcredentials : q.credentials? with _ | ⟨tokenType, token⟩
      · simp only [hcredentials, ensures_ite, ensures_bind, ensures_note, ensures_throw]
        split
        · intro f hf
          cases hf
          exact ⟨hforced, rfl, .missing (hcarried.trans hcredentials)⟩
        · intro f hf
          cases hf
      · simp only [hcredentials]
        apply (present_denied (hcarried.trans hcredentials)).imp
        exact fun _ _ hdenied f hf => ⟨hforced, hdenied f hf⟩

end Action

/-! ## What comes after it -/

theorem watch_of_arrivalOf? {datagram : Bytes} {a : Arrival κ ω}
    (ha : arrivalOf? h datagram l = some a) :
    watch a.state = (watch l).check (receiveCheck? h datagram l) := by
  obtain ⟨hadmitted, -⟩ := Action.letIn_ensures (h := h) (l := l) datagram
  rw [arrivalOf?] at ha
  rcases hletIn : Action.letIn h datagram l with ⟨f | ⟨now, m⟩, l₁⟩ <;>
    simp only [hletIn] at ha hadmitted <;> cases ha
  exact hadmitted

/-- What is known of the peer when its message is handled is what the check of this message says,
if there is one. -/
theorem auth_of_question? {q : Question κ ω} (hq : question? h l op = some q) :
    q.arrival.state.session.auth = (check? h l op).elim l.session.auth Check.auth := by
  obtain ⟨a, ha, hasks⟩ := Option.bind_eq_some_iff.1 hq
  obtain ⟨method, -, rfl⟩ := Option.map_eq_some_iff.1 hasks
  cases op with
  | receive datagram => exact congrArg Watch.auth (watch_of_arrivalOf? ha)
  | collect =>
    obtain ⟨⟨datagram, l₁⟩, hcollected, ha⟩ := Option.bind_eq_some_iff.1 ha
    have hsame : watch l₁ = watch l := by
      rw [Action.collected?] at hcollected
      split at hcollected <;> cases hcollected
      rfl
    rw [check?, hcollected, Option.bind_some]
    have hauth := congrArg Watch.auth (watch_of_arrivalOf? ha)
    rw [hsame] at hauth
    exact hauth
  | _ => cases ha

theorem auth_perform (h : Host ω) (l : Live κ ω) (op : Operation κ) :
    (perform h l op).session.auth = (check? h l op).elim l.session.auth Check.auth :=
  congrArg Watch.auth (watch_perform h l op)

/-- As long as no credential is accepted, a peer that has not authenticated is not answered. -/
theorem questions_eq_nil (hrequired : h.credentialsRequired = true)
    (hclosed : l.session.isAuthenticated = false)
    (hnone : ∀ c ∈ checks h l ops, c.accepted = false) : questions h l ops = [] := by
  induction ops generalizing l with
  | nil => rfl
  | cons op ops ih =>
    obtain ⟨hfirst, hrest⟩ := List.forall_mem_append.1 hnone
    have hstill : ((check? h l op).elim l.session.auth Check.auth).authenticated = false := by
      cases hcheck : check? h l op with
      | none => exact hclosed
      | some c =>
        have hrefused := hfirst c (Option.mem_toList.2 hcheck)
        rw [Option.elim_some, Check.auth, hrefused]
        rfl
    have hunasked : question? h l op = none := by
      rw [Option.eq_none_iff_forall_ne_some]
      intro q hq
      have hopen := authenticated_of_question? hq hrequired
      rw [isAuthenticated, auth_of_question? hq, hstill] at hopen
      cases hopen
    rw [questions, hunasked, ih _ hrest]
    · rfl
    · rw [isAuthenticated, auth_perform, hstill]

theorem Denied.of_unauthenticated (h : Denied h m l .unauthenticated l') :
    (m.credentials? = none ∧ l' = { l with history := .noted (.noCredentials m) :: l.history }) ∨
      m.credentials? ≠ none ∧ l'.session.auth = {} := by
  cases h with
  | missing hnone => exact .inl ⟨hnone, rfl⟩
  | rejected hcredentials => exact .inr ⟨by rw [hcredentials]; exact Option.some_ne_none _, rfl⟩

/-- **A peer that was refused waits until a credential is accepted**, unless it had authenticated
and the message that was refused carries no credential. In every state, when a check is refused,
forced or not, then whatever happens to the session afterwards, the application is not asked as long
as no credential is accepted. In the one case that is excepted, which takes a forced check, a note
is made of the refusal and nothing else changes: the peer has authenticated as before. -/
theorem refused_peer_waits (h : Host ω) (l : Live κ ω) (m : Message) (force : Bool) (f : Failure)
    (hrequired : h.credentialsRequired = true)
    (hrefused : (Action.ensureAuthentication h m force l).1 = .error f)
    (hcause : f.isUnauthenticated = true) :
    let l' := perform h l (.ensureAuthentication m force)
    let bare := l.session.isAuthenticated = true ∧ m.credentials? = none
    (l'.session.isAuthenticated = true ↔ bare) ∧
    (¬ bare → ∀ ops, (∀ c ∈ checks h l' ops, c.accepted = false) →
      questions h l' ops = [] ∧
        (run h l' ops).history.filterMap Effect.asked? = l.history.filterMap Effect.asked?) ∧
    (bare → force = true ∧
      l' = { l with history := .noted (.noCredentials m) :: l.history }) := by
  intro l' bare
  have hrefusal := Action.ensureAuthentication_denied h m force l f hrefused
  rw [eq_of_beq hcause] at hrefusal
  obtain ⟨hforced, -, hdenied⟩ := hrefusal
  have hopen : l'.session.isAuthenticated = true ↔ bare := by
    rcases hdenied.of_unauthenticated with ⟨hnone, hsame⟩ | ⟨hcarried, hclosed⟩
    · have hauth : l'.session.auth = l.session.auth := congrArg (·.session.auth) hsame
      rw [isAuthenticated, hauth]
      exact (and_iff_left hnone).symm
    · have hauth : l'.session.auth = {} := hclosed
      rw [isAuthenticated, hauth]
      exact ⟨fun hfalse => (Bool.false_ne_true hfalse).elim, fun hbare => absurd hbare.2 hcarried⟩
  refine ⟨hopen, ?_, ?_⟩
  · intro hnot ops hnone
    have hclosed : l'.session.isAuthenticated = false :=
      Bool.eq_false_iff.2 fun h => hnot (hopen.1 h)
    have hunasked := questions_eq_nil hrequired hclosed hnone
    -- The refusal is one more operation of the run, and asks nothing either.
    have hasked := congrArg Watch.asked (watch_run h l (.ensureAuthentication m force :: ops))
    have hquestions : questions h l (.ensureAuthentication m force :: ops) = [] := hunasked
    rw [hquestions] at hasked
    exact ⟨hunasked, hasked⟩
  · intro hbare
    rcases hdenied.of_unauthenticated with ⟨-, hsame⟩ | ⟨hcarried, -⟩
    · exact ⟨hforced hbare.1, hsame⟩
    · exact absurd hbare.2 hcarried

def sampleStranger : Message :=
  { type := .nonConfirmable, code := ⟨0, 1⟩,
    options := .ofList [⟨.uriQuery, .text "tt=jwt"⟩, ⟨.uriQuery, .text "t=nope"⟩] }

/-- A peer that has authenticated presents a wrong credential and is not answered any more; had it
presented none it would be. -/
theorem refused_peer_waits_samples :
    let known := run sampleHost ⟨sampleSession, 2000, []⟩ (sampleVisit.take 2)
    let stranger := perform sampleHost known (.ensureAuthentication sampleStranger true)
    let nobody := perform sampleHost known (.ensureAuthentication sampleRequest true)
    let refused : Except Failure Unit := .error ⟨.unauthenticated, .authenticating⟩
    known.session.isAuthenticated = true ∧
      (Action.ensureAuthentication sampleHost sampleStranger true known).1 = refused ∧
      questions sampleHost stranger (sampleVisit.drop 2) = [] ∧
      (Action.ensureAuthentication sampleHost sampleRequest true known).1 = refused ∧
      nobody.session.isAuthenticated = true ∧
      (questions sampleHost nobody (sampleVisit.drop 2)).length = 1 := by
  intro known stranger nobody refused
  have hknown : known.session.isAuthenticated = true := by decide +kernel
  have hstranger : (Action.ensureAuthentication sampleHost sampleStranger true known).1 =
      refused := by decide +kernel
  have hnobody : (Action.ensureAuthentication sampleHost sampleRequest true known).1 =
      refused := by decide +kernel
  have hcarried : sampleStranger.credentials? ≠ none := by decide +kernel
  have hbare : sampleRequest.credentials? = none := by decide +kernel
  have hunaccepted : ∀ c ∈ checks sampleHost stranger (sampleVisit.drop 2), c.accepted = false := by
    decide +kernel
  obtain ⟨-, hwaits, -⟩ :=
    refused_peer_waits sampleHost known sampleStranger true _ rfl hstranger rfl
  obtain ⟨hopen, -, -⟩ := refused_peer_waits sampleHost known sampleRequest true _ rfl hnobody rfl
  exact ⟨hknown, hstranger, (hwaits (fun h => hcarried h.2) _ hunaccepted).1, hnobody,
    hopen.2 ⟨hknown, hbare⟩, by decide +kernel⟩

end Session
end Coap
