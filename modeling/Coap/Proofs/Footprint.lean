import Coap.Proofs.Answered

/-!
# What a message takes out of the exchanges

A message that comes in puts nothing into the tables of the endpoint that it reaches. It ends one
request at most, the one under its own id if it is a reset and else the one that it answers, and
besides the record of that request it takes out only the record under its own id. All the rest
stands as it stood.
-/
namespace Coap

namespace Exchanges

variable {κ : Type} {x x' : Exchanges κ} {id : MessageId} {token : Token} {m : Message}
  {ended silenced : Option MessageId}

/-- The pending request that a response with the token would end. -/
def answered? (x : Exchanges κ) (token : Token) : Option MessageId :=
  if x.observers.contains token then none else (x.awaiting? token).map (·.1)

theorem answered?_eq_some_iff : x.answered? token = some id ↔ ∃ p, x.Awaits token id p := by
  rw [answered?]
  constructor
  · intro h
    split at h
    · cases h
    · rename_i hobserver
      obtain ⟨⟨id', p⟩, hp, rfl⟩ := Option.map_eq_some_iff.1 h
      obtain ⟨hpending, htoken, hsmallest⟩ := awaiting?_eq_some_iff.1 hp
      have hunobserved := contains_eq_false_iff.1 (Bool.eq_false_iff.2 hobserver)
      exact ⟨p, hunobserved, hpending, htoken, hsmallest⟩
  · rintro ⟨p, hp⟩
    rw [contains_eq_false_iff.2 hp.unobserved, hp.awaiting?_eq]
    rfl

theorem answered?_eq_none (h : ∀ id p, ¬ x.Awaits token id p) : x.answered? token = none := by
  rw [Option.eq_none_iff_forall_ne_some]
  intro id hid
  obtain ⟨p, hp⟩ := answered?_eq_some_iff.1 hid
  exact h id p hp

/-- Handing a response on ends the request that it answers and does nothing else. -/
theorem apply_deliver (m : Message) (x : Exchanges κ) :
    x.apply (.deliver m) = (x.answered? m.token).elim x x.cancel := by
  rcases x.deliver_cases m.token with ⟨c, hobserver, h⟩ | ⟨id, p, hp, h⟩ | ⟨-, hnobody, h⟩
  · have hnone : x.answered? m.token = none := by
      apply answered?_eq_none
      intro id p hp
      cases hobserver.symm.trans hp.unobserved
    rw [apply, h, hnone]
    rfl
  · rw [apply, h, answered?_eq_some_iff.2 ⟨p, hp⟩]
    rfl
  · have hnone : x.answered? m.token = none :=
      answered?_eq_none fun id p hp => hnobody id p hp.pending hp.token_eq
    rw [apply, h, hnone]
    rfl

/-- A request has ended, a message is no longer sent, and all the rest stands. -/
structure Without (ended silenced : Option MessageId) (x x' : Exchanges κ) : Prop where
  observers : x'.observers = x.observers
  pending : ∀ id : MessageId, x'.pending[id]? = if ended = some id then none else x.pending[id]?
  retries : ∀ id : MessageId,
    x'.retries[id]? = if ended = some id ∨ silenced = some id then none else x.retries[id]?

theorem without_nothing (hobservers : x'.observers = x.observers)
    (hpending : x'.pending = x.pending) (hretries : x'.retries = x.retries) :
    Without none none x x' := by
  refine ⟨hobservers, ?_, ?_⟩ <;> simp [hpending, hretries]

theorem acknowledge_without (id : MessageId) : Without none (some id) x (x.acknowledge id) := by
  refine ⟨rfl, ?_, ?_⟩
  · simp [acknowledge]
  · intro id'
    by_cases hid : id = id'
    · simp [acknowledge, hid]
    · simp [acknowledge, hid, getElem?_erase_of_ne hid]

theorem Without.cancel (h : Without none silenced x x') (id : MessageId) :
    Without (some id) silenced x (x'.cancel id) := by
  refine ⟨h.observers, ?_, ?_⟩ <;> intro id' <;> by_cases hid : id = id'
  · simp [Exchanges.cancel, hid]
  · simp [Exchanges.cancel, hid, getElem?_erase_of_ne hid, h.pending]
  · simp [Exchanges.cancel, hid]
  · simp [Exchanges.cancel, hid, getElem?_erase_of_ne hid, h.retries]

/-- A reset ends nothing where nothing waits. -/
theorem cancel_without (id : MessageId) :
    Without (if x.pending.contains id then some id else none) (some id) x (x.cancel id) := by
  refine ⟨rfl, ?_, ?_⟩ <;> intro id' <;> by_cases hid : id = id'
  · subst hid
    cases hcontains : x.pending.contains id with
    | true => simp [Exchanges.cancel]
    | false => simp [Exchanges.cancel, contains_eq_false_iff.1 hcontains]
  · simp [Exchanges.cancel, getElem?_erase_of_ne hid, hid]
  · simp [Exchanges.cancel, hid]
  · simp [Exchanges.cancel, getElem?_erase_of_ne hid, hid]

/-- What is named by the acknowledgement is no longer sent. -/
theorem acknowledgedBy_without (m : Message) :
    Without none (if m.type = .acknowledgement then some m.id else none) x
      (x.acknowledgedBy m) := by
  unfold acknowledgedBy
  split
  · exact acknowledge_without m.id
  · exact without_nothing rfl rfl rfl

theorem Without.deliver (h : Without none silenced x x') (m : Message) :
    Without (x'.answered? m.token) silenced x (x'.apply (.deliver m)) := by
  rw [apply_deliver]
  cases x'.answered? m.token with
  | none => exact h
  | some id => exact h.cancel id

/-- The exchanges after a message that the response handler takes. -/
def answeredBy (m : Message) (delivers : Bool) (x : Exchanges κ) : Exchanges κ :=
  if delivers then (x.acknowledgedBy m).apply (.deliver m) else x.acknowledgedBy m

theorem answered?_acknowledgedBy (m : Message) (x : Exchanges κ) (token : Token) :
    (x.acknowledgedBy m).answered? token = x.answered? token := by
  unfold acknowledgedBy
  split <;> rfl

end Exchanges

namespace Endpoint

variable {κ ω : Type} {app : Application ω} {now : Millis} {m : Message} {e : Endpoint κ} {w : ω}
  {id : MessageId}

/-- The message is a response that is handed to whoever waits for it. -/
def delivers (m : Message) (e : Endpoint κ) : Bool := m.kind == .response && !e.isDuplicate m

theorem delivers_iff : e.delivers m = true ↔ m.kind = .response ∧ e.isDuplicate m = false := by
  simp [delivers]

/-- The request that a message ends. -/
def ended? (m : Message) (e : Endpoint κ) : Option MessageId :=
  match Handler.ofMessage m with
  | .reset => if e.exchanges.pending.contains m.id then some m.id else none
  | .response => if e.delivers m then e.exchanges.answered? m.token else none
  | _ => none

theorem exchanges_response (h : Handler.ofMessage m = .response) :
    (e.handle app now m w).endpoint.exchanges = e.exchanges.answeredBy m (e.delivers m) := by
  simp only [Exchanges.answeredBy, (handle_moves app now m e w).eq_after, exchangeOps, h,
    Exchanges.after_append, Exchanges.after_acknowledging, ← delivers_iff]
  split <;> rfl

theorem exchanges_request {method : Method} (app : Application ω) (now : Millis) (e : Endpoint κ)
    (w : ω) (h : Handler.ofMessage m = .request method) :
    ∃ lastId, (e.handle app now m w).endpoint.exchanges = { e.exchanges with lastId } := by
  simp only [(handle_moves app now m e w).eq_after, exchangeOps, h]
  split
  · exact ⟨_, rfl⟩
  · split <;> exact ⟨_, rfl⟩

end Endpoint

/-- The message that is no longer sent once this one has come in, be it a request or not. -/
def Message.silenced? (m : Message) : Option MessageId :=
  match Handler.ofMessage m with
  | .reset => some m.id
  | .response => if m.type = .acknowledgement then some m.id else none
  | _ => none

namespace Endpoint

variable {κ ω : Type} {app : Application ω} {now : Millis} {m : Message} {e : Endpoint κ} {w : ω}
  {id : MessageId}

theorem handle_without (app : Application ω) (now : Millis) (m : Message) (e : Endpoint κ)
    (w : ω) :
    Exchanges.Without (e.ended? m) m.silenced? e.exchanges
      (e.handle app now m w).endpoint.exchanges := by
  cases hhandler : Handler.ofMessage m with
  | ping =>
    rw [ended?, Message.silenced?, handle, hhandler]
    exact Exchanges.without_nothing rfl rfl rfl
  | reset =>
    rw [handle_reset hhandler, ended?, Message.silenced?, hhandler]
    exact Exchanges.cancel_without m.id
  | response =>
    have hacknowledged := Exchanges.acknowledgedBy_without (x := e.exchanges) m
    rw [exchanges_response hhandler, ended?, Message.silenced?, hhandler]
    cases e.delivers m with
    | true =>
      rw [← Exchanges.answered?_acknowledgedBy m]
      exact hacknowledged.deliver m
    | false => exact hacknowledged
  | request method =>
    obtain ⟨lastId, hlastId⟩ := exchanges_request app now e w hhandler
    rw [hlastId, ended?, Message.silenced?, hhandler]
    exact Exchanges.without_nothing rfl rfl rfl

theorem ended?_eq_some_iff :
    e.ended? m = some id ↔ ∃ p, e.exchanges.pending[id]? = some p ∧
      (Handler.ofMessage m = .reset ∧ id = m.id ∨
        Handler.ofMessage m = .response ∧ m.kind = .response ∧ e.isDuplicate m = false ∧
          e.exchanges.Awaits m.token id p) := by
  cases hhandler : Handler.ofMessage m with
  | ping => simp [ended?, hhandler]
  | request method => simp [ended?, hhandler]
  | reset =>
    simp only [ended?, hhandler, Option.ite_none_right_eq_some, Option.some.injEq, true_and,
      reduceCtorEq, false_and, or_false, exists_and_right]
    rw [Std.ExtTreeMap.contains_eq_isSome_getElem?, Option.isSome_iff_exists]
    constructor
    · rintro ⟨hp, rfl⟩
      exact ⟨hp, rfl⟩
    · rintro ⟨hp, rfl⟩
      exact ⟨hp, rfl⟩
  | response =>
    simp only [ended?, hhandler, Option.ite_none_right_eq_some, delivers_iff,
      Exchanges.answered?_eq_some_iff, true_and, reduceCtorEq, false_and, false_or]
    constructor
    · rintro ⟨⟨hkind, hnew⟩, p, hp⟩
      exact ⟨p, hp.pending, hkind, hnew, hp⟩
    · rintro ⟨p, -, hkind, hnew, hp⟩
      exact ⟨⟨hkind, hnew⟩, p, hp⟩

/-- **A message takes out one request at most**, and puts nothing in. A reset ends the request
under its id. A response that is no duplicate, and for whose token nobody observes, ends the one
pending request with that token that has the smallest id. A record goes only with the request that
ends, or if it has the id of a reset or of an acknowledgement; no other entry is touched. -/
theorem takes_out_at_most_one_request (app : Application ω) (now : Millis) (m : Message)
    (e : Endpoint κ) (w : ω) :
    let x := e.exchanges
    let x' := (e.handle app now m w).endpoint.exchanges
    x'.observers = x.observers ∧
    ∃ ended silenced : Option MessageId,
      (∀ id : MessageId, x'.pending[id]? = if ended = some id then none else x.pending[id]?) ∧
      (∀ id : MessageId,
        x'.retries[id]? = if ended = some id ∨ silenced = some id then none else x.retries[id]?) ∧
      (∀ id, ended = some id ↔ ∃ p, x.pending[id]? = some p ∧
        (Handler.ofMessage m = .reset ∧ id = m.id ∨
          Handler.ofMessage m = .response ∧ m.kind = .response ∧ e.isDuplicate m = false ∧
            x.observers[m.token]? = none ∧ p.token = m.token ∧
            ∀ id' p', id' < id → x.pending[id']? = some p' → p'.token ≠ m.token)) ∧
      ∀ id, silenced = some id ↔ id = m.id ∧
        (Handler.ofMessage m = .reset ∨
          Handler.ofMessage m = .response ∧ m.type = .acknowledgement) := by
  intro x x'
  have hwithout := handle_without app now m e w
  refine ⟨hwithout.observers, e.ended? m, m.silenced?, hwithout.pending, hwithout.retries, ?_, ?_⟩
  · intro id
    rw [ended?_eq_some_iff]
    refine exists_congr fun p => and_congr_right fun hp => or_congr_right ?_
    refine and_congr_right' (and_congr_right' (and_congr_right' ?_))
    exact ⟨fun h => ⟨h.unobserved, h.token_eq, h.smallest⟩,
      fun ⟨hunobserved, htoken, hsmallest⟩ => ⟨hunobserved, hp, htoken, hsmallest⟩⟩
  · intro id
    rw [Message.silenced?]
    cases Handler.ofMessage m <;> simp [eq_comm, and_comm]

/-- Two requests with one token wait for their first response. -/
def sampleTwins : Endpoint Unit :=
  let request (id : MessageId) : Message := { Session.sampleRequest with id }
  ⟨{ lifetime := 100 }, (.new {} 0 : Exchanges Unit).after
    [.register (request 1).token (.once (some ())) 0, .schedule (request 1) 0,
      .register (request 2).token (.once (some ())) 0, .schedule (request 2) 0]⟩

/-- A response on the acknowledgement of the second one. -/
def sampleTwinAnswer : Message where
  type := .acknowledgement
  code := ⟨2, 5⟩
  id := 2
  token := Session.sampleRequest.token

/-- The first request ends, and the second one goes on waiting but is not sent again. -/
theorem takes_out_at_most_one_request_sample :
    let x' := (sampleTwins.handle (fun _ _ w => (.error "", w)) 50 sampleTwinAnswer
      ()).endpoint.exchanges
    x'.pending[(1 : MessageId)]? = none ∧ x'.retries[(1 : MessageId)]? = none ∧
      x'.pending[(2 : MessageId)]? = sampleTwins.exchanges.pending[(2 : MessageId)]? ∧
      x'.retries[(2 : MessageId)]? = none := by
  intro x'
  obtain ⟨-, ended, silenced, hpending, hretries, hended, hsilenced⟩ :=
    takes_out_at_most_one_request (fun _ _ w => (.error "", w)) 50 sampleTwinAnswer sampleTwins ()
  have hfirst : ended = some 1 := by
    refine (hended 1).2 ⟨⟨sampleTwinAnswer.token, 247000, some ()⟩, by decide +kernel,
      .inr ⟨by decide, by decide, by decide, by decide +kernel, rfl, ?_⟩⟩
    intro id p hlt hp
    obtain rfl : id = 0 := UInt16.lt_one_iff.1 hlt
    have hnone : sampleTwins.exchanges.pending[(0 : MessageId)]? = none := by decide +kernel
    cases hnone.symm.trans hp
  have hsecond : silenced = some 2 := (hsilenced 2).2 ⟨rfl, .inr ⟨by decide, rfl⟩⟩
  subst hfirst hsecond
  exact ⟨hpending 1, hretries 1, hpending 2, hretries 2⟩

end Endpoint
end Coap
