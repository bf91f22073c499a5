import Coap.Proofs.Run

/-!
# Requests that did not go out

A request is registered before it is sent, and is cancelled again if it cannot be sent. What was
put in under its id goes; an observer is kept under the token and not under the id, so the
cancellation does not reach it, and it has taken the place of whoever observed before.
-/
namespace Coap

namespace Exchanges

variable {κ : Type} {x x' : Exchanges κ} {token : Token} {delivery : Delivery κ}
  {start now : Millis} {id : MessageId}

/-- No message is sent again under an id under which no request is pending. -/
def Paired (x : Exchanges κ) : Prop :=
  ∀ id : MessageId, x.pending[id]? = none → x.retries[id]? = none

/-- Cancelling takes out the record that scheduling put in, if it put one in. -/
theorem retries_cancel_schedule {m : Message} (hfree : x.retries[m.id]? = none) :
    ((x.schedule m now).cancel m.id).retries = x.retries := by
  rw [cancel, schedule]
  split
  · exact erase_insert_of_none hfree
  · exact erase_of_none hfree

/-- Cancelling a request that was just registered and scheduled undoes both, but for its
observer. -/
theorem Paired.cancel_registered {m : Message} (hpaired : x.Paired)
    (h : x.register token delivery start = (some m.id, x')) :
    ((x'.schedule m now).cancel m.id).pending = x.pending ∧
      ((x'.schedule m now).cancel m.id).retries = x.retries ∧
      ((x'.schedule m now).cancel m.id).observers = (x.observe token delivery).observers := by
  obtain ⟨-, -, hretries, ⟨hnone, -⟩ | ⟨id, hid, hnew, hpending, hobservers⟩⟩ := register_cases h
  · cases hnone
  · cases hid
    refine ⟨?_, ?_, ?_⟩
    · rw [cancel, pending_schedule, hpending]
      exact erase_insert_of_none hnew
    · rw [retries_cancel_schedule, hretries]
      rw [hretries]
      exact hpaired m.id hnew
    · exact (observers_schedule m now).trans hobservers

end Exchanges

/-- The message had its id, and could not be written or was not taken. -/
def Failure.IsOfSending (f : Failure) : Prop :=
  (∃ cause, f.cause = .unwritable cause) ∨ ∃ reason, f.cause = .transport reason

namespace Session

variable {κ ω : Type} {h : Host ω} {l : Live κ ω} {m : Message}

namespace Action

theorem not_isOfSending_of_now {cause : Cause} (hclock : (h.now l.world).1 = .error cause)
    (during : Activity) : ¬ Failure.IsOfSending ⟨cause, during⟩ := by
  unfold Host.now at hclock
  rintro (⟨_, rfl⟩ | ⟨_, rfl⟩) <;> grind

theorem send_isOfSending (during : Activity) :
    Ensures (send h m during) l fun r _ => ∀ f, r = .error f → f.IsOfSending := by
  apply (send_refused h m during l).imp
  intro r _ hrefused f hf
  obtain ⟨cause, during'⟩ := f
  obtain ⟨-, w, hrefuses⟩ := hrefused _ hf
  cases hrefuses with
  | unwritable => exact .inl ⟨_, rfl⟩
  | untaken => exact .inr ⟨_, rfl⟩

theorem transmit_isOfSending (now : Millis) :
    Ensures (transmit h m now) l fun r _ => ∀ f, r = .error f → f.IsOfSending := by
  unfold transmit
  simp only [schedule, ensures_bind, ensures_modifySession, ensures_outcome]
  apply (send_isOfSending _).imp
  intro r l₁ hsent
  cases r with
  | error f =>
    rintro f' ⟨⟩
    exact hsent f rfl
  | ok _ =>
    refine (postponePing_quiet (v := fun _ => ()) now).bind_ok ?_
    intro l₂ _
    refine (armTimers_quiet (v := fun _ => ())).bind_ok ?_
    intro _ _ f hf
    cases hf

theorem transmit_error (now : Millis) :
    Ensures (transmit h m now) l fun r l' => ∀ f, r = .error f →
      f.IsOfSending ∧ l'.exchanges = (l.exchanges.schedule m now).cancel m.id := by
  intro f hf
  refine ⟨transmit_isOfSending now f hf, ?_⟩
  rcases transmit_ensures (l := l) (h.keeps_const ()) m now with ⟨-, -, hendpoint⟩ | ⟨hr, -⟩
  · exact congrArg Endpoint.exchanges hendpoint
  · cases hr.symm.trans hf

/-- What a request that fails leaves behind. -/
structure Undone (x : Exchanges κ) (token : Token) (delivery : Delivery κ) (f : Failure)
    (x' : Exchanges κ) : Prop where
  pending : x'.pending = x.pending
  retries : x'.retries = x.retries
  /-- Its observer, if it was about to be sent. -/
  observers_of_sending : f.IsOfSending → x'.observers = (x.observe token delivery).observers
  observers : ¬ f.IsOfSending → x'.observers = x.observers

theorem sendCorrelated_undone (hpaired : l.exchanges.Paired) (delivery : Delivery κ) :
    Ensures (sendCorrelated h m delivery) l fun r l' =>
      ∀ f, r = .error f →
        Undone l.exchanges (l.session.tokenFor m) delivery f l'.exchanges := by
  rw [sendCorrelated_eq]
  refine (ensureToken_quiet (v := id) m).bind_ok ?_
  intro l₁ hq
  have hworld : l₁.world = l.world := hq.view
  have hexchanges : l₁.exchanges = l.exchanges := congrArg Endpoint.exchanges hq.endpoint
  simp only [ensures_bind, ensures_now, hworld]
  cases hclock : (h.now l.world).1 with
  | error cause =>
    rintro f ⟨⟩
    have hcause := not_isOfSending_of_now hclock (.sending m.id (l.session.tokenFor m))
    exact ⟨congrArg _ hexchanges, congrArg _ hexchanges, fun hf => absurd hf hcause,
      fun _ => congrArg _ hexchanges⟩
  | ok now =>
    simp only [Except.mapError, ensures_register]
    rcases hregister : l₁.exchanges.register (l.session.tokenFor m) delivery now with ⟨id?, x⟩
    rw [hexchanges] at hregister
    cases id? with
    | none =>
      rintro f ⟨⟩
      obtain ⟨-, -, hretries, ⟨-, hpending, hobservers⟩ | ⟨_, hid, -⟩⟩ :=
        Exchanges.register_cases hregister
      · exact ⟨hpending, hretries, by simp [Failure.IsOfSending], fun _ => hobservers⟩
      · cases hid
    | some id =>
      apply (transmit_error now).imp
      intro r l' herror f hf
      obtain ⟨hsending, hexchanges'⟩ := herror f hf
      obtain ⟨hpending, hretries, hobservers⟩ := hpaired.cancel_registered
        (m := { m with token := l.session.tokenFor m, id }) hregister
      rw [hexchanges']
      exact ⟨hpending, hretries, fun _ => hobservers, fun hnot => absurd hsending hnot⟩

end Action

open Session.Action

/-- **A request that fails leaves at most its observer behind.** In every state in which no message is sent
again under an id under which no request is pending, a request for one response that fails for any
reason leaves the pending requests, the observers and the records as they were. One that asks to
observe leaves the pending requests and the records as they were, and the observers too if the clock
failed or there was no id for it; if it could not be written or was not taken by the transport, its
own observer stays, in the place of whoever observed under the token before. -/
theorem failed_send_leaves_at_most_its_observer (h : Host ω) (l : Live κ ω) (m : Message)
    (f : Failure) (hpaired : l.exchanges.Paired) :
    (∀ callback, (Action.sendRequest h m callback l).1 = .error f →
      let x := (Action.sendRequest h m callback l).2.exchanges
      x.pending = l.exchanges.pending ∧ x.observers = l.exchanges.observers ∧
        x.retries = l.exchanges.retries) ∧
    ∀ callback, (Action.observe h m callback l).1 = .error f →
      let x := (Action.observe h m callback l).2.exchanges
      x.pending = l.exchanges.pending ∧ x.retries = l.exchanges.retries ∧
        (¬ f.IsOfSending → x.observers = l.exchanges.observers) ∧
        (f.IsOfSending →
          x.observers = l.exchanges.observers.insert (l.session.tokenFor m) callback) := by
  refine ⟨?_, ?_⟩
  · intro callback hf
    have hundone := sendCorrelated_undone (h := h) (m := m) hpaired (.once callback) f
      (error_of_return hf)
    rw [Action.sendRequest, return_eq]
    refine ⟨hundone.pending, ?_, hundone.retries⟩
    by_cases hsending : f.IsOfSending
    · exact hundone.observers_of_sending hsending
    · exact hundone.observers hsending
  · intro callback hf
    have hundone := sendCorrelated_undone (h := h) (m := m.setObserve true) hpaired
      (.observer callback) f (error_of_return hf)
    rw [Action.observe, return_eq]
    exact ⟨hundone.pending, hundone.retries, hundone.observers, hundone.observers_of_sending⟩

/-- Somebody observes already, by a request that is not sent again. -/
def sampleWatched : Live Bool Nat :=
  run sampleHost
    ⟨{ config := {}, endpoint := .new {} 6, tokens := .new {} 0, pingDue := 0 }, 2000, []⟩
    [.observe { sampleRequest with type := .nonConfirmable } false]

/-- Both requests fail, and the one that asks to observe has displaced the earlier observer. -/
theorem failed_send_leaves_at_most_its_observer_sample :
    let f : Failure := ⟨.transport "Broken", .sending 8 sampleRequest.token⟩
    let asked := Action.sendRequest deafHost sampleRequest (some true) sampleWatched
    let observed := Action.observe deafHost sampleRequest true sampleWatched
    sampleWatched.exchanges.Paired ∧
      asked.1 = .error f ∧
      asked.2.exchanges.pending = sampleWatched.exchanges.pending ∧
      asked.2.exchanges.observers = sampleWatched.exchanges.observers ∧
      observed.1 = .error f ∧
      observed.2.exchanges.pending = sampleWatched.exchanges.pending ∧
      sampleWatched.exchanges.observers[sampleRequest.token]? = some false ∧
      observed.2.exchanges.observers[sampleRequest.token]? = some true := by
  intro f asked observed
  have hpaired : sampleWatched.exchanges.Paired := by
    have hnone : sampleWatched.exchanges.retries = ∅ :=
      Std.ExtTreeMap.isEmpty_iff.1 (by decide +kernel)
    intro id _
    rw [hnone]
    exact Std.ExtTreeMap.getElem?_empty
  have hasked : asked.1 = .error f := by decide +kernel
  have hobserved : observed.1 = .error f := by decide +kernel
  have hbefore : sampleWatched.exchanges.observers[sampleRequest.token]? = some false := by
    decide +kernel
  obtain ⟨hrequest, hobserve⟩ :=
    failed_send_leaves_at_most_its_observer deafHost sampleWatched sampleRequest f hpaired
  obtain ⟨hpending, hobservers, -⟩ := hrequest (some true) hasked
  obtain ⟨hpending', -, -, hdisplaced⟩ := hobserve true hobserved
  refine ⟨hpaired, hasked, hpending, hobservers, hobserved, hpending', hbefore, ?_⟩
  rw [hdisplaced (.inr ⟨_, rfl⟩)]
  exact Std.ExtTreeMap.getElem?_insert_self

end Session
end Coap
