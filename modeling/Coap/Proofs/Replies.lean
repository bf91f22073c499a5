import Coap.Proofs.Deduplication

/-!
# Replies

What goes back for a message, and which ids that takes: one lemma for each handler, and from them
the rule for all messages, whatever the tables hold and whatever the application answers.
-/
namespace Coap.Endpoint

variable {κ ω : Type} {e : Endpoint κ} {app : Application ω} {now : Millis} {m r : Message}
  {w : ω} {method : Method}

/-- An empty message has no class that could be suppressed. -/
theorem suppressed_of_empty (h : r.code = .empty) : suppressed m r = false := by
  unfold suppressed
  rw [h]
  split <;> rfl

/-! ## Responses and resets -/

theorem lastId_deliver (m : Message) (e : Endpoint κ) :
    (e.deliver m).1.exchanges.lastId = e.exchanges.lastId := by
  unfold deliver
  rcases e.exchanges.deliver_cases m.token with ⟨c, -, h⟩ | ⟨id, p, -, h⟩ | ⟨-, -, h⟩
  · rw [h]
  · rw [h]
    rfl
  · rw [h]

theorem lastId_acknowledged (m : Message) (e : Endpoint κ) :
    (e.acknowledged m).1.exchanges.lastId = e.exchanges.lastId := by
  unfold acknowledged
  split <;> rfl

theorem exchanges_remember (e : Endpoint κ) (m : Message) (now : Millis) :
    (e.remember m now).exchanges = e.exchanges := by
  unfold remember
  split <;> rfl

theorem lastId_response (e : Endpoint κ) (now : Millis) (m : Message) (w : ω) :
    (e.response now m w).endpoint.exchanges.lastId = e.exchanges.lastId := by
  have hacknowledged := lastId_acknowledged m e
  cases hkind : m.kind with
  | empty =>
    simp only [response, hkind]
    exact hacknowledged
  | request =>
    simp only [response, hkind]
    exact hacknowledged
  | response =>
    simp only [response, hkind]
    split
    · exact hacknowledged
    · rw [lastId_deliver, exchanges_remember, hacknowledged]

/-- Of what the response handler takes only a confirmable response is answered. -/
theorem reply_response (e : Endpoint κ) (now : Millis) (m : Message) (w : ω) :
    (e.response now m w).reply =
      if m.kind = .response ∧ m.type = .confirmable then some (m.ack m.id) else none := by
  cases hkind : m.kind with
  | empty => simp only [response, hkind, reduceCtorEq, false_and, if_false]
  | request => simp only [response, hkind, reduceCtorEq, false_and, if_false]
  | response =>
    simp only [response, hkind, true_and]
    split <;> rfl

/-! ## Requests -/

/-- An answer that is wanted goes back. One that is not is replaced by an empty acknowledgement,
or by nothing. -/
theorem reply_conclude_ok (answer : Message) (e : Endpoint κ) (w : ω) :
    (conclude method m (.ok answer) e w).reply =
      if suppressed m answer = true then
        if m.type = .confirmable then some (m.ack m.id) else none
      else some (e.reply m answer).1 := by
  rw [conclude]
  split <;> rfl

theorem exchanges_conclude_ok (answer : Message) (e : Endpoint κ) (w : ω) :
    (conclude method m (.ok answer) e w).endpoint.exchanges =
      if suppressed m answer = true then e.exchanges else (e.reply m answer).2.exchanges := by
  rw [conclude]
  split <;> rfl

theorem exchanges_forget (e : Endpoint κ) (m : Message) : (e.forget m).exchanges = e.exchanges := by
  unfold forget
  split <;> rfl

theorem request_of_not_confirmable (htype : m.type ≠ .confirmable) :
    e.request app now method m w = conclude method m (app method m w).1 e (app method m w).2 := by
  have hnew : e.isDuplicate m = false := by
    simp [isDuplicate, htype]
  rw [request, hnew, if_neg Bool.false_ne_true, remember, if_neg htype]

/-! ## What the application is asked -/

theorem deliver_effects (m : Message) (e : Endpoint κ) {f : Effect κ} (hf : f ∈ (e.deliver m).2) :
    (∃ n, f = .noted n) ∨ ∃ c, f = .delivered c m := by
  unfold deliver at hf
  split at hf
  · obtain ⟨c, -, rfl⟩ := List.mem_map.1 hf
    exact .inr ⟨c, rfl⟩
  · exact .inl ⟨_, List.mem_singleton.1 hf⟩

theorem response_effects {f : Effect κ} (hf : f ∈ (e.response now m w).effects) :
    (∃ n, f = .noted n) ∨ ∃ c, f = .delivered c m := by
  have hfirst : ∀ f ∈ (e.acknowledged m).2, ∃ n, f = .noted n := by
    intro f hf
    unfold acknowledged at hf
    split at hf
    · exact ⟨_, List.mem_singleton.1 hf⟩
    · cases hf
  cases hkind : m.kind with
  | empty =>
    simp only [response, hkind, List.mem_append] at hf
    rcases hf with hf | hf
    · exact .inl (hfirst f hf)
    · split at hf
      · cases hf
      · exact .inl ⟨_, List.mem_singleton.1 hf⟩
  | request =>
    simp only [response, hkind, List.mem_append] at hf
    rcases hf with hf | hf
    · exact .inl (hfirst f hf)
    · exact .inl ⟨_, List.mem_singleton.1 hf⟩
  | response =>
    simp only [response, hkind] at hf
    split at hf <;> rcases List.mem_append.1 hf with hf | hf
    · exact .inl (hfirst f hf)
    · exact .inl ⟨_, List.mem_singleton.1 hf⟩
    · exact .inl (hfirst f hf)
    · exact deliver_effects m _ hf

theorem conclude_effects {answer : Except String Message} {f : Effect κ}
    (hf : f ∈ (conclude method m answer e w).effects) :
    (∃ n, f = .noted n) ∨ f = .asked method m := by
  cases answer with
  | error reason =>
    simp only [conclude, List.mem_cons, List.not_mem_nil, or_false] at hf
    exact hf.symm.imp_left fun hf => ⟨_, hf⟩
  | ok answer =>
    rw [conclude] at hf
    split at hf
    · simp only [List.mem_cons, List.not_mem_nil, or_false] at hf
      exact hf.symm.imp_left fun hf => ⟨_, hf⟩
    · exact .inr (List.mem_singleton.1 hf)

/-- Handling a message is noted, asks the application about the message or hands it to a
callback. -/
theorem handle_effects {f : Effect κ} (hf : f ∈ (e.handle app now m w).effects) :
    (∃ n, f = .noted n) ∨
      (∃ method, f = .asked method m ∧ m.code.method? = some method ∧ e.isDuplicate m = false) ∨
      ∃ c, f = .delivered c m := by
  cases hhandler : Handler.ofMessage m with
  | ping =>
    rw [handle, hhandler] at hf
    exact .inl ⟨_, List.mem_singleton.1 hf⟩
  | reset =>
    rw [handle_reset hhandler] at hf
    exact .inl ⟨_, List.mem_singleton.1 hf⟩
  | response =>
    rw [handle_response hhandler] at hf
    exact (response_effects hf).imp_right .inr
  | request method =>
    have hmethod := method?_of_handler hhandler
    rw [handle_request hmethod, request] at hf
    split at hf
    · exact .inl ⟨_, List.mem_singleton.1 hf⟩
    · rename_i hnew
      refine (conclude_effects hf).imp_right fun hf => .inl ⟨method, hf, hmethod, ?_⟩
      exact Bool.eq_false_iff.2 hnew

/-- **The application is asked about a request with a known method that is no duplicate**, and
about nothing else. -/
theorem mem_handle_asked_iff :
    .asked method r ∈ (e.handle app now m w).effects ↔
      r = m ∧ m.code.method? = some method ∧ e.isDuplicate m = false := by
  constructor
  · intro hasked
    rcases handle_effects hasked with ⟨n, hn⟩ | ⟨method', hf, hmethod, hnew⟩ | ⟨c, hc⟩
    · cases hn
    · cases hf
      exact ⟨rfl, hmethod, hnew⟩
    · cases hc
  · rintro ⟨rfl, hmethod, hnew⟩
    rw [handle_request hmethod, request, hnew, if_neg Bool.false_ne_true]
    exact asks_conclude.1

/-! ## The reply to a message -/

/-- What goes back for a confirmable message, case by case. -/
inductive ReplyOf (app : Application ω) (m : Message) (e : Endpoint κ) (w : ω) :
    Option Message → Prop
  | ping (hcode : m.code = .empty) : ReplyOf app m e w (some m.rejection)
  | response (hkind : m.kind = .response) : ReplyOf app m e w (some (m.ack m.id))
  | unknown (hkind : m.kind = .request) (hmethod : m.code.method? = none) : ReplyOf app m e w none
  | duplicate {method : Method} (hmethod : m.code.method? = some method)
      (hseen : e.isDuplicate m = true) : ReplyOf app m e w (some (m.ack m.id))
  | failed {method : Method} {reason : String} (hmethod : m.code.method? = some method)
      (hnew : e.isDuplicate m = false) (herror : (app method m w).1 = .error reason) :
      ReplyOf app m e w none
  | unwanted {method : Method} {answer : Message} (hmethod : m.code.method? = some method)
      (hanswer : (app method m w).1 = .ok answer) (hsuppressed : suppressed m answer = true) :
      ReplyOf app m e w (some (m.ack m.id))
  | answered {method : Method} {answer : Message} (hmethod : m.code.method? = some method)
      (hanswer : (app method m w).1 = .ok answer) (hwanted : suppressed m answer = false) :
      ReplyOf app m e w (some (replyTo m answer))

theorem kind_eq_empty_iff : m.kind = .empty ↔ m.code = .empty := by
  unfold Message.kind Code.kind
  constructor
  · intro h
    split at h
    · cases h
    · rename_i hcategory
      split at h
      · rename_i hdetail
        exact congrArg₂ Code.mk (not_not.1 hcategory) hdetail
      · cases h
  · intro h
    rw [h]
    rfl

theorem code_ne_empty (h : m.code.method? = some method) : m.code ≠ .empty := by
  intro hcode
  cases (Code.kind_of_method? h).symm.trans (kind_eq_empty_iff.2 hcode)

/-- The reply belongs to the message. -/
theorem ReplyOf.matches (h : ReplyOf app m e w (some r)) :
    r.token = m.token ∧ suppressed m r = false ∧ r.id = m.id ∧
      r.type = if m.code = .empty then .reset else .acknowledgement := by
  cases h with
  | ping hcode => exact ⟨rfl, suppressed_of_empty rfl, rfl, (if_pos hcode).symm⟩
  | response hkind =>
    have hcode : m.code ≠ .empty := fun hcode => by
      cases hkind.symm.trans (kind_eq_empty_iff.2 hcode)
    exact ⟨rfl, suppressed_of_empty rfl, rfl, (if_neg hcode).symm⟩
  | duplicate hmethod hseen =>
    exact ⟨rfl, suppressed_of_empty rfl, rfl, (if_neg (code_ne_empty hmethod)).symm⟩
  | unwanted hmethod hanswer hsuppressed =>
    exact ⟨rfl, suppressed_of_empty rfl, rfl, (if_neg (code_ne_empty hmethod)).symm⟩
  | answered hmethod hanswer hwanted =>
    exact ⟨rfl, hwanted, rfl, (if_neg (code_ne_empty hmethod)).symm⟩

theorem request_replyOf (htype : m.type = .confirmable) (hmethod : m.code.method? = some method) :
    ReplyOf app m e w (e.request app now method m w).reply := by
  cases hseen : e.isDuplicate m with
  | true =>
    rw [request, hseen, if_pos rfl]
    exact .duplicate hmethod hseen
  | false =>
    rw [request, hseen, if_neg Bool.false_ne_true]
    cases happ : (app method m w).1 with
    | error reason =>
      simp only [happ]
      exact .failed hmethod hseen happ
    | ok answer =>
      simp only [happ]
      rw [reply_conclude_ok, if_pos htype, reply, if_pos htype]
      cases hsuppressed : suppressed m answer with
      | true => exact .unwanted hmethod happ hsuppressed
      | false => exact .answered hmethod happ hsuppressed

/-- A confirmable message gets its reply and takes no id. -/
theorem handle_replyOf (app : Application ω) (now : Millis) (e : Endpoint κ) (w : ω)
    (htype : m.type = .confirmable) : ReplyOf app m e w (e.handle app now m w).reply := by
  cases hkind : m.kind with
  | empty =>
    rw [handle_ping hkind htype]
    exact .ping (kind_eq_empty_iff.1 hkind)
  | response =>
    rw [handle_response (handler_of_response htype hkind), reply_response, if_pos ⟨hkind, htype⟩]
    exact .response hkind
  | request =>
    cases hmethod : m.code.method? with
    | some method =>
      rw [handle_request hmethod]
      exact request_replyOf htype hmethod
    | none =>
      have hhandler : Handler.ofMessage m = .response := by
        simp only [Handler.ofMessage, hkind, hmethod, htype, reduceCtorEq, if_false]
      rw [handle_response hhandler, reply_response, hkind, if_neg (by simp)]
      exact .unknown hkind hmethod

theorem unanswered_iff (now : Millis) (htype : m.type = .confirmable) :
    (e.handle app now m w).reply = none ↔ m.kind = .request ∧ m.code.method? = none ∨
      ∃ method reason, .asked method m ∈ (e.handle app now m w).effects ∧
        (app method m w).1 = .error reason := by
  have hreply := handle_replyOf app now e w htype
  simp only [mem_handle_asked_iff, true_and]
  constructor
  · intro hnone
    rw [hnone] at hreply
    cases hreply with
    | unknown hkind hmethod => exact .inl ⟨hkind, hmethod⟩
    | failed hmethod hnew herror => exact .inr ⟨_, _, ⟨hmethod, hnew⟩, herror⟩
  · rintro (⟨hkind, hmethod⟩ | ⟨method, reason, ⟨hmethod, hnew⟩, herror⟩)
    · have hhandler : Handler.ofMessage m = .response := by
        simp only [Handler.ofMessage, hkind, hmethod, htype, reduceCtorEq, if_false]
      rw [handle_response hhandler, reply_response, hkind, if_neg (by simp)]
    · rw [handle_request hmethod, request, hnew, if_neg Bool.false_ne_true]
      simp only [herror]
      rfl

/-- Only a request takes an id. -/
theorem lastId_handle_of_method?_none (app : Application ω) (now : Millis) (e : Endpoint κ)
    (w : ω) (hmethod : m.code.method? = none) :
    (e.handle app now m w).endpoint.exchanges.lastId = e.exchanges.lastId := by
  cases hhandler : Handler.ofMessage m with
  | ping =>
    rw [handle, hhandler]
    rfl
  | reset =>
    rw [handle_reset hhandler]
    rfl
  | response =>
    rw [handle_response hhandler]
    exact lastId_response e now m w
  | request method => cases hmethod.symm.trans (method?_of_handler hhandler)

theorem lastId_handle_of_confirmable (app : Application ω) (now : Millis) (e : Endpoint κ) (w : ω)
    (htype : m.type = .confirmable) :
    (e.handle app now m w).endpoint.exchanges.lastId = e.exchanges.lastId := by
  cases hmethod : m.code.method? with
  | none => exact lastId_handle_of_method?_none app now e w hmethod
  | some method =>
    rw [handle_request hmethod]
    exact congrArg Exchanges.lastId (request_cases e app now method w htype).1

theorem reply_of_method?_none (app : Application ω) (now : Millis) (e : Endpoint κ) (w : ω)
    (hmethod : m.code.method? = none) (htype : m.type ≠ .confirmable) :
    (e.handle app now m w).reply = none := by
  cases hhandler : Handler.ofMessage m with
  | ping =>
    have hping : m.type = .confirmable := by
      unfold Handler.ofMessage at hhandler
      grind
    exact absurd hping htype
  | reset =>
    rw [handle_reset hhandler]
    rfl
  | response =>
    rw [handle_response hhandler, reply_response, if_neg fun h => htype h.2]
  | request method => cases hmethod.symm.trans (method?_of_handler hhandler)

/-- **A message that is not confirmable** gets a reply only as a request that is answered, and
that reply takes one id. -/
theorem handle_of_not_confirmable (app : Application ω) (now : Millis) (e : Endpoint κ) (w : ω)
    (htype : m.type ≠ .confirmable) :
    let turn := e.handle app now m w
    (∃ method answer, m.code.method? = some method ∧ (app method m w).1 = .ok answer ∧
        suppressed m answer = false ∧
        turn.reply = some { answer with
          token := m.token, type := .nonConfirmable, id := e.exchanges.lastId.next } ∧
        turn.endpoint.exchanges.lastId = e.exchanges.lastId.next) ∨
      (∀ method answer, m.code.method? = some method → (app method m w).1 = .ok answer →
          suppressed m answer = true) ∧
        turn.reply = none ∧ turn.endpoint.exchanges.lastId = e.exchanges.lastId := by
  intro turn
  cases hmethod : m.code.method? with
  | none =>
    exact .inr ⟨nofun, reply_of_method?_none app now e w hmethod htype,
      lastId_handle_of_method?_none app now e w hmethod⟩
  | some method =>
    have hturn : turn = conclude method m (app method m w).1 e (app method m w).2 := by
      rw [← request_of_not_confirmable htype]
      exact handle_request hmethod
    rw [hturn]
    cases happ : (app method m w).1 with
    | error reason =>
      refine .inr ⟨?_, rfl, congrArg Exchanges.lastId (exchanges_forget e m)⟩
      intro method' answer hmethod' hanswer
      cases hmethod'
      cases happ.symm.trans hanswer
    | ok answer =>
      rw [reply_conclude_ok, exchanges_conclude_ok, reply, if_neg htype, if_neg htype]
      cases hsuppressed : suppressed m answer with
      | false => exact .inl ⟨method, answer, rfl, happ, hsuppressed, rfl, rfl⟩
      | true =>
        refine .inr ⟨?_, rfl, rfl⟩
        intro method' answer' hmethod' hanswer
        cases hmethod'
        cases happ.symm.trans hanswer
        exact hsuppressed

/-- **Replies follow the message that they answer.** There is at most one, it carries the token of
the message, and it is of no class that the message's No-Response option rules out.

A confirmable message is answered under its own id, by a reset exactly if it is empty and otherwise
by an acknowledgement, and takes no id; it goes unanswered exactly if it is a request with an
unknown method, or one that the application was asked about and failed on. Any other message is
answered exactly if it is a request that the application answers and whose answer is wanted; the
reply is non-confirmable and takes the next id, and without a reply no id is taken. -/
theorem reply_discipline (app : Application ω) (now : Millis) (m : Message) (e : Endpoint κ)
    (w : ω) :
    let turn := e.handle app now m w
    (∀ r, turn.reply = some r → r.token = m.token ∧ suppressed m r = false) ∧
    (m.type = .confirmable →
      (∀ r, turn.reply = some r → r.id = m.id ∧
        r.type = if m.code = .empty then .reset else .acknowledgement) ∧
      (turn.reply = none ↔ m.kind = .request ∧ m.code.method? = none ∨
        ∃ method reason, .asked method m ∈ turn.effects ∧
          (app method m w).1 = .error reason) ∧
      turn.endpoint.exchanges.lastId = e.exchanges.lastId) ∧
    (m.type ≠ .confirmable →
      (turn.reply.isSome ↔ ∃ method answer, m.code.method? = some method ∧
        (app method m w).1 = .ok answer ∧ suppressed m answer = false) ∧
      (∀ r, turn.reply = some r → r.type = .nonConfirmable ∧ r.id = e.exchanges.lastId.next ∧
        turn.endpoint.exchanges.lastId = e.exchanges.lastId.next) ∧
      (turn.reply = none → turn.endpoint.exchanges.lastId = e.exchanges.lastId)) := by
  intro turn
  by_cases htype : m.type = .confirmable
  · have hreply : ReplyOf app m e w turn.reply := handle_replyOf app now e w htype
    refine ⟨?_, fun _ => ⟨?_, unanswered_iff now htype, ?_⟩, fun h => absurd htype h⟩
    · intro r hr
      rw [hr] at hreply
      exact ⟨hreply.matches.1, hreply.matches.2.1⟩
    · intro r hr
      rw [hr] at hreply
      exact hreply.matches.2.2
    · exact lastId_handle_of_confirmable app now e w htype
  · rcases handle_of_not_confirmable app now e w htype with
      ⟨method, answer, hmethod, hanswer, hwanted, hreply, hlast⟩ | ⟨hunwanted, hreply, hlast⟩
    · have hsome : ∀ r, turn.reply = some r → r = { answer with
          token := m.token, type := .nonConfirmable, id := e.exchanges.lastId.next } :=
        fun r hr => Option.some.inj (hr.symm.trans hreply)
      refine ⟨?_, fun h => absurd h htype, fun _ => ⟨?_, ?_, ?_⟩⟩
      · intro r hr
        rw [hsome r hr]
        exact ⟨rfl, hwanted⟩
      · exact iff_of_true (hreply ▸ rfl) ⟨method, answer, hmethod, hanswer, hwanted⟩
      · intro r hr
        rw [hsome r hr]
        exact ⟨rfl, rfl, hlast⟩
      · intro hnone
        cases hnone.symm.trans hreply
    · have hnone : ∀ r, turn.reply ≠ some r := fun r hr => by cases hr.symm.trans hreply
      refine ⟨fun r hr => absurd hr (hnone r), fun h => absurd h htype, fun _ => ⟨?_, ?_, ?_⟩⟩
      · refine iff_of_false (by rw [hreply]; exact Bool.false_ne_true) ?_
        rintro ⟨method, answer, hmethod, hanswer, hwanted⟩
        cases hwanted.symm.trans (hunwanted method answer hmethod hanswer)
      · exact fun r hr => absurd hr (hnone r)
      · exact fun _ => hlast

/-- A request that is not confirmable and whose success is not to be reported. -/
def sampleQuiet : Message :=
  ({ sampleGet with type := .nonConfirmable } : Message).setNoResponse ⟨2⟩

/-- One request that fails, one that is answered under the next id, and one whose answer is not
wanted. -/
theorem reply_discipline_sample :
    let e : Endpoint Unit := ⟨{ lifetime := 100 }, .new {} 41⟩
    let get : Message := { sampleGet with type := .nonConfirmable }
    (e.handle sampleApplication 0 samplePost ()).reply = none ∧
      (e.handle sampleApplication 0 get ()).reply.isSome ∧
      (∀ r, (e.handle sampleApplication 0 get ()).reply = some r →
        r.type = .nonConfirmable ∧ r.id = 42) ∧
      ¬ (e.handle sampleApplication 0 sampleQuiet ()).reply.isSome := by
  intro e get
  have hasked : .asked .post samplePost ∈ (e.handle sampleApplication 0 samplePost ()).effects :=
    mem_handle_asked_iff.2 ⟨rfl, rfl, by decide +kernel⟩
  have hget : suppressed get { code := ⟨2, 5⟩ } = false := by decide +kernel
  have hquiet : suppressed sampleQuiet { code := ⟨2, 5⟩ } = true := by decide +kernel
  have hother : get.type ≠ .confirmable := by decide
  have hother' : sampleQuiet.type ≠ .confirmable := by decide
  obtain ⟨-, hfailed, -⟩ := reply_discipline sampleApplication 0 samplePost e ()
  obtain ⟨-, -, hanswered⟩ := reply_discipline sampleApplication 0 get e ()
  obtain ⟨-, -, hunwanted⟩ := reply_discipline sampleApplication 0 sampleQuiet e ()
  refine ⟨(hfailed rfl).2.1.2 (.inr ⟨.post, "refused", hasked, rfl⟩),
    (hanswered hother).1.2 ⟨.get, _, rfl, rfl, hget⟩, ?_, ?_⟩
  · intro r hr
    obtain ⟨htype, hid, -⟩ := (hanswered hother).2.1 r hr
    exact ⟨htype, hid.trans (by decide)⟩
  · intro hsome
    obtain ⟨method, answer, hmethod, hanswer, hwanted⟩ := (hunwanted hother').1.1 hsome
    cases hmethod
    cases hanswer
    cases hquiet.symm.trans hwanted

end Coap.Endpoint
