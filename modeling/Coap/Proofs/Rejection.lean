import Coap.Proofs.Aftermath
import Coap.Proofs.Refusal

/-!
# Rejected datagrams

A datagram that is rejected before it is handled leaves the tables of the session, its ids and its
tokens as they were, and reaches neither the application nor the peer. Whatever else goes wrong with
a datagram goes wrong with the reply to it.
-/
namespace Coap.Session

variable {κ ω : Type} {h : Host ω} {m : Message} {force : Bool} {datagram : Bytes}
  {l l' : Live κ ω} {f : Failure}

/-- The session when a datagram is heard at a time. -/
def Live.hearing (l : Live κ ω) (now : Millis) (w : ω) (n : Notice) : Live κ ω :=
  { session := l.session.postponed (some now), world := w, history := .noted n :: l.history }

/-- Why a datagram is rejected, and the state that is left. -/
inductive Rejected (h : Host ω) (datagram : Bytes) (l : Live κ ω) : Failure → Live κ ω → Prop
  | untimed {cause : Cause} {w : ω} (hclock : h.now l.world = (.error cause, w)) :
    Rejected h datagram l ⟨cause, .receiving⟩ { l with world := w }
  | unreadable {now : Millis} {w : ω} {cause : Message.ReadError}
    (hclock : h.now l.world = (.ok now, w)) (hread : Message.read datagram = .error cause) :
    Rejected h datagram l ⟨.unreadable cause, .receiving⟩
      (l.hearing now w (.discarded datagram.length cause))
  | denied {now : Millis} {w : ω} {m : Message} {cause : Cause} {l' : Live κ ω}
    (hclock : h.now l.world = (.ok now, w)) (hread : Message.read datagram = .ok m)
    (hkind : m.kind = .request) (hunknown : l.session.isAuthenticated = false)
    (hdenied : Denied h m (l.hearing now w (.received m)) cause l') :
    Rejected h datagram l ⟨cause, .authenticating⟩ l'

/-- A datagram is handled, and the reply to it is refused. -/
def Unanswered (h : Host ω) (datagram : Bytes) (l : Live κ ω) (f : Failure) : Prop :=
  ∃ a reply w, arrivalOf? h datagram l = some a ∧
    let turn := a.state.session.endpoint.handle h.application a.now a.message a.state.world
    turn.reply = some reply ∧ h.Refuses reply turn.world f.cause w ∧
      f.during = .sending reply.id reply.token

/-- The session is as before except for what is known of the peer and the time of the next ping, and
nothing was sent and nobody called. -/
structure Live.Untouched (l l' : Live κ ω) : Prop where
  session : l'.session = { l.session with pingDue := l'.session.pingDue, auth := l'.session.auth }
  history : ∃ es, l'.history = es ++ l.history ∧ ∀ e ∈ es, e.IsAside

namespace Action

/-! ## What goes wrong -/

theorem authorize_denied (h : Host ω) (m : Message) (l : Live κ ω) :
    Ensures (authorize h m) l fun r l' => ∀ f, r = .error f →
      m.kind = .request ∧ l.session.isAuthenticated = false ∧
        f.during = .authenticating ∧ Denied h m l f.cause l' := by
  rw [authorize, ensures_ite]
  split
  · rename_i hkind
    apply (ensureAuthentication_denied h m false l).imp
    intro r l' hdenied f hf
    obtain ⟨hforced, hduring, hdenied⟩ := hdenied f hf
    exact ⟨hkind, Bool.eq_false_iff.2 fun hknown => Bool.false_ne_true (hforced hknown),
      hduring, hdenied⟩
  · intro f hf
    cases hf

theorem letIn_rejected (h : Host ω) (datagram : Bytes) (l : Live κ ω) :
    Ensures (letIn h datagram) l fun r l' => ∀ f, r = .error f → Rejected h datagram l f l' := by
  have hdecode := decode_eq h datagram l
  rcases hclock : h.now l.world with ⟨cause | now, w⟩ <;> rw [hclock] at hdecode <;>
    dsimp only at hdecode
  · rw [Ensures, letIn, bind_of_error hdecode]
    rintro f ⟨⟩
    exact .untimed hclock
  · rcases hread : Message.read datagram with cause | m <;> rw [hread] at hdecode <;>
      dsimp only at hdecode
    · rw [Ensures, letIn, bind_of_error hdecode]
      rintro f ⟨⟩
      exact .unreadable hclock hread
    · rw [Ensures, letIn, bind_of_ok hdecode]
      show Ensures (authorize h m >>= fun _ => pure (now, m)) (l.hearing now w (.received m))
        fun r l' => ∀ f, r = .error f → Rejected h datagram l f l'
      refine (authorize_denied h m _).bind ?_ ?_
      · intro _ l₁ _ f hf
        cases hf
      · intro e l₁ hdenied f hf
        cases hf
        obtain ⟨hkind, hunknown, hduring, hdenied⟩ := hdenied e rfl
        obtain ⟨cause, during⟩ := e
        cases hduring
        exact .denied hclock hread hkind hunknown hdenied

/-- Handling itself does not fail. -/
theorem respond_refused (h : Host ω) (now : Millis) (m : Message) (l : Live κ ω) :
    let turn := l.session.endpoint.handle h.application now m l.world
    Ensures (respond h now m) l fun r _ => ∀ f, r = .error f → ∃ reply w,
      turn.reply = some reply ∧ h.Refuses reply turn.world f.cause w ∧
        f.during = .sending reply.id reply.token := by
  intro turn
  unfold respond
  simp only [ensures_bind, ensures_handle, ensures_armTimers]
  cases hreply : turn.reply with
  | none =>
    intro f hf
    cases hf
  | some reply =>
    refine (send_refused h reply _ _).bind ?_ ?_
    · intro _ l' _ f hf
      cases hf
    · intro e l' hrefused f hf
      cases hf
      obtain ⟨hduring, w, hrefuses⟩ := hrefused e rfl
      exact ⟨reply, w, rfl, hrefuses, hduring⟩

theorem letIn_untouched (h : Host ω) (datagram : Bytes) (l : Live κ ω) :
    Ensures (letIn h datagram) l fun _ l' => l.Untouched l' := by
  obtain ⟨auth, hsession⟩ := letIn_session h datagram l
  have hquiet := letIn_quiet (l := l) (h.keeps_const ()) datagram
  exact ⟨by rw [hsession]; rfl, hquiet.history⟩

/-- A datagram that fails is rejected, or handled and not answered. -/
theorem receive_failed (h : Host ω) (datagram : Bytes) (l : Live κ ω) :
    Ensures (receive h datagram) l fun r l' => ∀ f, r = .error f →
      (Rejected h datagram l f l' ∧ l.Untouched l') ∨ Unanswered h datagram l f := by
  have hrejected := letIn_rejected h datagram l
  have huntouched := letIn_untouched h datagram l
  rw [Ensures, receive_eq_letIn]
  rcases hrun : letIn h datagram l with ⟨e | ⟨now, m⟩, l₁⟩ <;>
    rw [Ensures, hrun] at hrejected huntouched
  · rw [bind_of_error hrun]
    intro f hf
    cases hf
    exact .inl ⟨hrejected e rfl, huntouched⟩
  · rw [bind_of_ok hrun]
    intro f hf
    obtain ⟨reply, w, hreply, hrefuses, hduring⟩ := respond_refused h now m l₁ f hf
    have harrival : arrivalOf? h datagram l = some ⟨now, m, l₁⟩ := by
      rw [arrivalOf?, hrun]
    exact .inr ⟨⟨now, m, l₁⟩, reply, w, harrival, hreply, hrefuses, hduring⟩

end Action

/-! ## What is left -/

/-- What goes wrong with a reply goes wrong while it is sent, so the two are told apart. -/
theorem Rejected.during (hrejected : Rejected h datagram l f l') :
    f.during = .receiving ∨ f.during = .authenticating := by
  cases hrejected with
  | untimed => exact .inl rfl
  | unreadable => exact .inl rfl
  | denied => exact .inr rfl

/-- Only a credential that a message carries is checked. -/
theorem credentials?_of_checkOf? {c : Check} (hcheck : checkOf? h m force l = some c) :
    m.credentials? = some c.credentials ∧
      c.accepted = (h.authenticate c.identity.tokenType c.identity.token l.world).1 := by
  rw [checkOf?] at hcheck
  split at hcheck
  · cases hcheck
  · cases hquery : Query.ofMessage m with
    | error cause =>
      rw [hquery] at hcheck
      cases hcheck
    | ok q =>
      rw [hquery] at hcheck
      obtain ⟨⟨tokenType, token⟩, hcredentials, rfl⟩ := Option.map_eq_some_iff.1 hcheck
      rw [Message.credentials?, hquery]
      exact ⟨hcredentials, rfl⟩

theorem Denied.not_accepted {cause : Cause} (hdenied : Denied h m l cause l') {c : Check}
    (hcheck : checkOf? h m force l = some c) : c.accepted = false := by
  obtain ⟨hcarried, haccepted⟩ := credentials?_of_checkOf? hcheck
  cases hdenied with
  | malformed hquery =>
    rw [Message.credentials?, hquery] at hcarried
    cases hcarried
  | missing hnone =>
    rw [hnone] at hcarried
    cases hcarried
  | rejected hcredentials hrejects =>
    rw [hcredentials] at hcarried
    cases hcarried
    rw [haccepted]
    exact congrArg Prod.fst hrejects

theorem Rejected.not_accepted (hrejected : Rejected h datagram l f l') {c : Check}
    (hcheck : receiveCheck? h datagram l = some c) : c.accepted = false := by
  rw [receiveCheck?, Action.decode_eq] at hcheck
  cases hrejected with
  | untimed hclock =>
    rw [hclock] at hcheck
    cases hcheck
  | unreadable hclock hread =>
    simp only [hclock, hread] at hcheck
    cases hcheck
  | denied hclock hread hkind hunknown hdenied =>
    simp only [hclock, hread, hkind, if_true] at hcheck
    exact hdenied.not_accepted hcheck

/-- **A rejected datagram leaves no trace.** A datagram that cannot be received was either rejected
or handled, and then it is the reply to it that could not be written or was not taken. If it was
rejected, at an unreadable clock, as unreadable itself or as a request that lacks what it takes, the
session is as before and nothing was sent and nobody called; what is known of the peer is as before,
too, unless a credential was checked and refused. -/
theorem rejected_datagram_leaves_no_trace (h : Host ω) (l : Live κ ω) (datagram : Bytes)
    (f : Failure) (hf : (Action.receive h datagram l).1 = .error f) :
    let l' := perform h l (.receive datagram)
    (Rejected h datagram l f l' ∧ l.Untouched l' ∧
        l'.session.auth = (receiveCheck? h datagram l).elim l.session.auth (fun _ => {}) ∧
        ∀ c, receiveCheck? h datagram l = some c → c.accepted = false) ∨
      Unanswered h datagram l f := by
  intro l'
  refine (Action.receive_failed h datagram l f hf).imp_left ?_
  rintro ⟨hrejected, huntouched⟩
  refine ⟨hrejected, huntouched, ?_, fun c => hrejected.not_accepted⟩
  have hauth := auth_perform h l (.receive datagram)
  rw [check?] at hauth
  cases hcheck : receiveCheck? h datagram l with
  | none =>
    rw [hcheck] at hauth
    exact hauth
  | some c =>
    rw [hcheck] at hauth
    rw [hauth, Option.elim_some, Option.elim_some, Check.auth, hrejected.not_accepted hcheck]
    rfl

/-- While a request waits, another peer's is rejected and nothing moves; a ping is handled, and the
reset that it calls for is not taken by the transport. -/
theorem rejected_datagram_leaves_no_trace_samples :
    let l : Live Unit Nat :=
      run sampleHost ⟨sampleSession, 2000, []⟩ [.sendRequest sampleRequest none]
    let lost : Failure := ⟨.transport "Broken", .sending 1 ⟨[], by decide⟩⟩
    (Action.receive sampleHost [80, 1, 0, 1] l).1 = .error ⟨.unauthenticated, .authenticating⟩ ∧
      l.Untouched (perform sampleHost l (.receive [80, 1, 0, 1])) ∧
      (Action.receive deafHost [64, 0, 0, 1] l).1 = .error lost ∧
      Unanswered deafHost [64, 0, 0, 1] l lost := by
  intro l lost
  have hstranger : (Action.receive sampleHost [80, 1, 0, 1] l).1 =
      .error ⟨.unauthenticated, .authenticating⟩ := by decide +kernel
  have hping : (Action.receive deafHost [64, 0, 0, 1] l).1 = .error lost := by decide +kernel
  refine ⟨hstranger, ?_, hping, ?_⟩
  · rcases rejected_datagram_leaves_no_trace sampleHost l _ _ hstranger with
      ⟨-, huntouched, -⟩ | ⟨_, _, _, -, -, -, hsending⟩
    · exact huntouched
    · cases hsending
  · rcases rejected_datagram_leaves_no_trace deafHost l _ _ hping with ⟨hrejected, -⟩ | hunanswered
    · rcases hrejected.during with hduring | hduring <;> cases hduring
    · exact hunanswered

end Coap.Session
