import Coap.Endpoint
import Coap.Proofs.Exchanges

/-!
What an endpoint makes of a message. A confirmable request has four outcomes, told apart by the
ids seen and by the application; an acknowledgement or a reset calls at most one callback, that
of a pending request, which it ends.
-/
namespace Coap

variable {κ ω : Type}

/-- Reaches neither the peer nor the application nor a callback. -/
def Effect.IsAside : Effect κ → Prop
  | .noted _ => True
  | .presented _ _ => True
  | _ => False

/-- Tells a listener that a message was given up. -/
def Effect.IsAbandoned : Effect κ → Prop
  | .abandoned _ _ _ => True
  | _ => False

/-- Sends a message of which something holds. -/
def Effect.Sends (p : Message → Prop) (e : Effect κ) : Prop :=
  ∃ m b, p m ∧ m.write = .ok b ∧ e = .sent b

theorem Effect.Sends.mono {p q : Message → Prop} (hpq : ∀ m, p m → q m) {e : Effect κ}
    (h : e.Sends p) : e.Sends q := by
  obtain ⟨m, b, hm, hwrite, he⟩ := h
  exact ⟨m, b, hpq m hm, hwrite, he⟩

theorem Code.kind_of_method? {c : Code} {method : Method} (h : c.method? = some method) :
    c.kind = .request := by
  unfold method? at h
  repeat' split at h
  all_goals first
    | rename_i hc
      rw [hc]
      rfl
    | cases h

/-- Tells a listener that a message was given up of whose id and token something holds. -/
def Effect.GivesUp (p : MessageId → Token → Prop) (e : Effect κ) : Prop :=
  ∃ listener id token, p id token ∧ e = .abandoned listener id token

theorem Effect.GivesUp.mono {p q : MessageId → Token → Prop}
    (hpq : ∀ id token, p id token → q id token) {e : Effect κ} (h : e.GivesUp p) :
    e.GivesUp q := by
  obtain ⟨listener, id, token, hp, he⟩ := h
  exact ⟨listener, id, token, hpq id token hp, he⟩

theorem Effect.GivesUp.isAbandoned {p : MessageId → Token → Prop} {e : Effect κ}
    (h : e.GivesUp p) : e.IsAbandoned := by
  obtain ⟨listener, id, token, -, rfl⟩ := h
  trivial

namespace Endpoint

variable {e : Endpoint κ} {app : Application ω} {now : Millis} {m : Message} {w : ω}

theorem handle_ping (hkind : m.kind = .empty) (htype : m.type = .confirmable) :
    e.handle app now m w = e.ping m w := by
  simp only [handle, handleAs, Handler.ofMessage, hkind, htype]

theorem handle_request {method : Method} (hmethod : m.code.method? = some method) :
    e.handle app now m w = e.request app now method m w := by
  have hkind : m.kind = .request := Code.kind_of_method? hmethod
  simp only [handle, handleAs, Handler.ofMessage, hkind, hmethod]

/-- What goes back for a request that was answered. -/
def replyTo (request answer : Message) : Message :=
  { answer with type := .acknowledgement, id := request.id, token := request.token }

theorem isDuplicate_eq (htype : m.type = .confirmable) :
    e.isDuplicate m = e.dedup.contains m.id := by
  simp only [isDuplicate, htype, beq_self_eq_true, Bool.true_and]

theorem request_of_seen {method : Method} (htype : m.type = .confirmable)
    (hseen : e.dedup.contains m.id = true) :
    e.request app now method m w =
      ⟨e, w, some (m.ack m.id), [.noted (.duplicateRequest m)]⟩ := by
  rw [request, isDuplicate_eq htype, if_pos hseen]

theorem request_of_new {method : Method} (htype : m.type = .confirmable)
    (hnew : e.dedup.contains m.id = false) :
    e.request app now method m w =
      conclude method m (app method m w).1 ⟨e.dedup.remember m.id now, e.exchanges⟩
        (app method m w).2 := by
  rw [request, isDuplicate_eq htype, hnew, if_neg Bool.false_ne_true, remember, if_pos htype]

/-- **The outcomes of a confirmable request.** Only where its id was not seen is the application
asked, and only where that fails is the id not seen afterwards. -/
theorem request_cases (e : Endpoint κ) (app : Application ω) (now : Millis) (method : Method)
    (w : ω) (htype : m.type = .confirmable) :
    let turn := e.request app now method m w
    turn.endpoint.exchanges = e.exchanges ∧ (∀ d, .sent d ∉ turn.effects) ∧
    (e.dedup.contains m.id = true ∧ turn.endpoint.dedup = e.dedup ∧ turn.world = w ∧
        turn.reply = some (m.ack m.id) ∨
      e.dedup.contains m.id = false ∧ turn.world = (app method m w).2 ∧
        ((∃ reason, (app method m w).1 = .error reason ∧
            turn.endpoint.dedup = (e.dedup.remember m.id now).forget m.id ∧ turn.reply = none) ∨
          ∃ answer, (app method m w).1 = .ok answer ∧
            turn.endpoint.dedup = e.dedup.remember m.id now ∧
            (turn.reply = some (m.ack m.id) ∨ turn.reply = some (replyTo m answer)))) := by
  cases hseen : e.dedup.contains m.id with
  | true =>
    rw [request_of_seen htype hseen]
    exact ⟨rfl, by simp, .inl ⟨rfl, rfl, rfl, rfl⟩⟩
  | false =>
    rw [request_of_new htype hseen]
    cases happ : (app method m w).1 with
    | error reason =>
      rw [conclude, forget, if_pos htype]
      exact ⟨rfl, by simp, .inr ⟨rfl, rfl, .inl ⟨reason, rfl, rfl, rfl⟩⟩⟩
    | ok answer =>
      by_cases hsuppressed : suppressed m answer = true
      · rw [conclude, if_pos hsuppressed, if_pos htype]
        exact ⟨rfl, by simp, .inr ⟨rfl, rfl, .inr ⟨answer, rfl, rfl, .inl rfl⟩⟩⟩
      · rw [conclude, if_neg hsuppressed, reply, if_pos htype]
        exact ⟨rfl, by simp, .inr ⟨rfl, rfl, .inr ⟨answer, rfl, rfl, .inr rfl⟩⟩⟩

/-- What an acknowledgement stops is no request. -/
theorem acknowledged_cases (m : Message) (e : Endpoint κ) :
    e.exchanges.Shrinks (e.acknowledged m).1.exchanges ∧
      (e.acknowledged m).1.exchanges.pending = e.exchanges.pending ∧
      ∀ f ∈ (e.acknowledged m).2, f.IsAside := by
  unfold acknowledged
  split
  · exact ⟨Exchanges.acknowledge_shrinks m.id, rfl, by simp [Effect.IsAside]⟩
  · exact ⟨.refl, rfl, List.forall_mem_nil _⟩

theorem deliver_cases (hobservers : e.exchanges.observers = ∅) :
    e.exchanges.Shrinks (e.deliver m).1.exchanges ∧
      ((∀ f ∈ (e.deliver m).2, f.IsAside) ∨
        ∃ (c : κ) (id : MessageId) (p : Pending κ), (e.deliver m).2 = [.delivered c m] ∧
          e.exchanges.pending[id]? = some p ∧ p.token = m.token ∧ p.callback = some c ∧
          (e.deliver m).1.exchanges.pending[id]? = none) := by
  unfold deliver
  cases hdeliver : e.exchanges.deliver m.token with
  | none => exact ⟨.refl, .inl (by simp [Effect.IsAside])⟩
  | some found =>
    obtain ⟨callback, exchanges⟩ := found
    obtain ⟨hshrinks, id, p, hp, htoken, hcallback, herase⟩ :=
      Exchanges.deliver_some hobservers hdeliver
    refine ⟨hshrinks, ?_⟩
    cases callback with
    | none => exact .inl (List.forall_mem_nil _)
    | some c =>
      refine .inr ⟨c, id, p, rfl, hp, htoken, hcallback, ?_⟩
      show exchanges.pending[id]? = none
      rw [herase]
      exact Std.ExtTreeMap.getElem?_erase_self

/-- **What is neither a request nor confirmable gets no reply.** It calls at most one callback,
that of a pending request with its token, which it ends. -/
theorem handle_response_cases (app : Application ω) (now : Millis) (w : ω)
    (hkind : m.kind ≠ .request) (htype : m.type ≠ .confirmable)
    (hobservers : e.exchanges.observers = ∅) :
    let turn := e.handle app now m w
    turn.reply = none ∧ e.exchanges.Shrinks turn.endpoint.exchanges ∧
      ((∀ f ∈ turn.effects, f.IsAside) ∨
        ∃ (first : List (Effect κ)) (c : κ) (id : MessageId) (p : Pending κ),
          turn.effects = first ++ [.delivered c m] ∧ (∀ f ∈ first, f.IsAside) ∧
          m.kind = .response ∧ e.exchanges.pending[id]? = some p ∧ p.token = m.token ∧
          p.callback = some c ∧ turn.endpoint.exchanges.pending[id]? = none) := by
  by_cases hreset : m.type = .reset
  · have hhandle : e.handle app now m w = e.reset m w := by
      cases hm : m.kind <;> simp_all [handle, handleAs, Handler.ofMessage]
    rw [hhandle]
    exact ⟨rfl, Exchanges.cancel_shrinks m.id, .inl (by simp [reset, Effect.IsAside])⟩
  · have hhandle : e.handle app now m w = e.response now m w := by
      cases hm : m.kind <;> cases ht : m.type <;> simp_all [handle, handleAs, Handler.ofMessage]
    rw [hhandle]
    obtain ⟨hshrinks, hpending, hfirst⟩ := acknowledged_cases m e
    cases hm : m.kind with
    | request => exact absurd hm hkind
    | empty =>
      simp only [response, hm]
      refine ⟨by trivial, hshrinks, .inl ?_⟩
      intro f hf
      rcases List.mem_append.1 hf with hf | hf
      · exact hfirst f hf
      · split at hf
        · cases hf
        · obtain rfl := List.mem_singleton.1 hf
          trivial
    | response =>
      have hduplicate : (e.acknowledged m).1.isDuplicate m = false := by
        simp [isDuplicate, htype]
      simp only [response, hm, hduplicate, remember, if_neg htype]
      obtain ⟨hshrinks', hcases⟩ := deliver_cases (m := m)
        (hshrinks.observers.trans hobservers)
      refine ⟨rfl, hshrinks.trans hshrinks', ?_⟩
      rcases hcases with haside | ⟨c, id, p, heffects, hp, htoken, hcallback, hnone⟩
      · refine .inl ?_
        intro f hf
        rcases List.mem_append.1 hf with hf | hf
        · exact hfirst f hf
        · exact haside f hf
      · rw [hpending] at hp
        exact .inr ⟨_, c, id, p, congrArg _ heffects, hfirst, by trivial, hp, htoken, hcallback,
          hnone⟩

end Endpoint
end Coap
