import Coap.Proofs.Handling
import Coap.Proofs.Operation
import Mathlib.Data.List.Induction

/-!
# What is a duplicate is told by the history

A confirmable message is taken for a duplicate exactly if one with its id was processed and nothing
since then has made the endpoint forget it. One input remembers an id, forgets it or does neither;
the history follows from that by induction on the run.
-/
namespace Coap.Endpoint

variable {κ ω : Type}

/-- What can happen to an endpoint: a message comes in, the ids seen are swept, or something is
done with the exchanges. -/
inductive Input (κ : Type) where
  | message (m : Message) (now : Millis)
  | sweep (now : Millis)
  | exchange (op : Exchanges.Operation κ)

/-- One input to an endpoint and the world of its application. -/
def step (app : Application ω) (s : Endpoint κ × ω) : Input κ → Endpoint κ × ω
  | .message m now => ((s.1.handle app now m s.2).endpoint, (s.1.handle app now m s.2).world)
  | .sweep now => ({ s.1 with dedup := s.1.dedup.sweep now }, s.2)
  | .exchange op => ({ s.1 with exchanges := s.1.exchanges.apply op }, s.2)

def run (app : Application ω) (s : Endpoint κ × ω) (inputs : List (Input κ)) : Endpoint κ × ω :=
  inputs.foldl (step app) s

/-- The messages of which there may be duplicates. -/
structure Deduplicated (m : Message) : Prop where
  confirmable : m.type = .confirmable
  kind : m.code.method?.isSome ∨ m.kind = .response

/-- The message is processed, not as a duplicate, and the application does not fail. -/
structure Processed (app : Application ω) (s : Endpoint κ × ω) (m : Message) : Prop
    extends Deduplicated m where
  new : s.1.dedup.contains m.id = false
  answered : ∀ method reason, m.code.method? = some method → (app method m s.2).1 ≠ .error reason

/-- The input makes the endpoint remember an id until `expiry`. -/
def Remembers (app : Application ω) (s : Endpoint κ × ω) (id : MessageId) (expiry : Millis) :
    Input κ → Prop
  | .message m now =>
    Processed app s m ∧ m.id = id ∧ expiry = Millis.add now s.1.dedup.lifetime
  | _ => False

/-- The input makes the endpoint forget an id that it was to remember until `expiry`. -/
def Forgets (id : MessageId) (expiry : Millis) : Input κ → Prop
  | .message m _ => m.id = id ∧ Handler.ofMessage m = .reset
  | .sweep now => expiry ≤ now
  | .exchange _ => False

variable {app : Application ω} {e : Endpoint κ} {s : Endpoint κ × ω} {m : Message} {w : ω}
  {now expiry : Millis} {id : MessageId} {method : Method}

theorem run_append (s : Endpoint κ × ω) (inputs inputs' : List (Input κ)) :
    run app s (inputs ++ inputs') = run app (run app s inputs) inputs' :=
  List.foldl_append

theorem run_concat (s : Endpoint κ × ω) (inputs : List (Input κ)) (i : Input κ) :
    run app s (inputs ++ [i]) = step app (run app s inputs) i :=
  run_append s inputs [i]

/-! ## One message -/

theorem method?_of_handler (h : Handler.ofMessage m = .request method) :
    m.code.method? = some method := by
  unfold Handler.ofMessage at h
  repeat' split at h
  all_goals first
    | cases h
      assumption
    | cases h

theorem handler_of_method? (h : m.code.method? = some method) :
    Handler.ofMessage m = .request method := by
  have hkind : m.kind = .request := Code.kind_of_method? h
  simp only [Handler.ofMessage, hkind, h]

theorem handler_of_response (htype : m.type = .confirmable) (hkind : m.kind = .response) :
    Handler.ofMessage m = .response := by
  simp only [Handler.ofMessage, hkind, htype, reduceCtorEq, if_false]

theorem forget_remember {d : Dedup} (h : d.contains id = false) :
    (d.remember id now).forget id = d := by
  have hseen : ((d.remember id now).forget id).seen = d.seen := by
    apply Std.ExtTreeMap.ext_getElem?
    intro id'
    by_cases hid : id' = id
    · rw [hid, Dedup.contains_eq_false_iff.1 h]
      exact Std.ExtTreeMap.getElem?_erase_self
    · rw [Dedup.forget_of_ne hid, Dedup.remember_of_ne hid]
  exact congrArg (Dedup.mk d.lifetime) hseen

theorem dedup_deliver (m : Message) (e : Endpoint κ) : (e.deliver m).1.dedup = e.dedup := by
  unfold deliver
  split <;> rfl

theorem dedup_acknowledged (m : Message) (e : Endpoint κ) :
    (e.acknowledged m).1.dedup = e.dedup := by
  unfold acknowledged
  split <;> rfl

/-- Handing a response on does not look at the ids seen. -/
theorem deliver_remembering (m : Message) (e : Endpoint κ) (d : Dedup) :
    (deliver m ⟨d, e.exchanges⟩).2 = (e.deliver m).2 ∧
      (deliver m ⟨d, e.exchanges⟩).1.exchanges = (e.deliver m).1.exchanges := by
  unfold deliver
  cases e.exchanges.deliver m.token <;> exact ⟨rfl, rfl⟩

theorem acknowledged_of_confirmable (htype : m.type = .confirmable) :
    e.acknowledged m = (e, []) := by
  rw [acknowledged, if_neg]
  rintro ⟨hack, -⟩
  cases htype.symm.trans hack

theorem response_of_seen (htype : m.type = .confirmable) (hkind : m.kind = .response)
    (hseen : e.dedup.contains m.id = true) :
    e.response now m w = ⟨e, w, some (m.ack m.id), [.noted (.duplicateResponse m)]⟩ := by
  simp only [response, acknowledged_of_confirmable htype, hkind, isDuplicate_eq htype, hseen,
    if_true, htype, List.nil_append]

theorem response_of_new (htype : m.type = .confirmable) (hkind : m.kind = .response)
    (hnew : e.dedup.contains m.id = false) :
    e.response now m w =
      ⟨(deliver m ⟨e.dedup.remember m.id now, e.exchanges⟩).1, w, some (m.ack m.id),
        (e.deliver m).2⟩ := by
  rw [← (deliver_remembering m e (e.dedup.remember m.id now)).1]
  simp only [response, acknowledged_of_confirmable htype, hkind, isDuplicate_eq htype, hnew,
    remember, htype, List.nil_append, Bool.false_eq_true, if_false, if_true]

theorem dedup_conclude_ok {answer : Message} :
    (conclude method m (.ok answer) e w).endpoint.dedup = e.dedup := by
  rw [conclude]
  split
  · rfl
  · show (e.reply m answer).2.dedup = e.dedup
    unfold reply
    split <;> rfl

theorem handle_reset (h : Handler.ofMessage m = .reset) : e.handle app now m w = e.reset m w := by
  rw [handle, h]
  rfl

theorem handle_response (h : Handler.ofMessage m = .response) :
    e.handle app now m w = e.response now m w := by
  rw [handle, h]
  rfl

theorem dedup_request_of_not_confirmable (htype : m.type ≠ .confirmable) :
    (e.request app now method m w).endpoint.dedup = e.dedup := by
  have hduplicate : e.isDuplicate m = false := by
    simp [isDuplicate, htype]
  rw [request, hduplicate, if_neg Bool.false_ne_true, remember, if_neg htype]
  obtain ⟨answer | answer, w'⟩ := app method m w
  · show (e.forget m).dedup = e.dedup
    rw [forget, if_neg htype]
  · exact dedup_conclude_ok

theorem Deduplicated.handler_ne_reset (h : Deduplicated m) : Handler.ofMessage m ≠ .reset := by
  rcases h.kind with hmethod | hkind
  · obtain ⟨method, hmethod⟩ := Option.isSome_iff_exists.1 hmethod
    rw [handler_of_method? hmethod]
    exact Handler.noConfusion
  · rw [handler_of_response h.confirmable hkind]
    exact Handler.noConfusion

theorem dedup_handle_of_processed (h : Processed app (e, w) m) :
    (e.handle app now m w).endpoint.dedup = e.dedup.remember m.id now := by
  rcases h.kind with hmethod | hkind
  · obtain ⟨method, hmethod⟩ := Option.isSome_iff_exists.1 hmethod
    rw [handle_request hmethod, request_of_new h.confirmable h.new]
    cases happ : (app method m w).1 with
    | error reason => exact absurd happ (h.answered method reason hmethod)
    | ok answer => exact dedup_conclude_ok
  · rw [handle_response (handler_of_response h.confirmable hkind),
      response_of_new h.confirmable hkind h.new]
    exact dedup_deliver m _

theorem dedup_handle_of_other (h : ¬ Processed app (e, w) m)
    (hreset : Handler.ofMessage m ≠ .reset) : (e.handle app now m w).endpoint.dedup = e.dedup := by
  cases hhandler : Handler.ofMessage m with
  | ping =>
    rw [handle, hhandler]
    rfl
  | reset => exact absurd hhandler hreset
  | request method =>
    have hmethod := method?_of_handler hhandler
    rw [handle_request hmethod]
    by_cases htype : m.type = .confirmable
    · obtain ⟨-, -, ⟨-, hdedup, -⟩ | ⟨hnew, -, ⟨reason, -, hdedup, -⟩ | ⟨answer, hanswer, -⟩⟩⟩ :=
        request_cases e app now method w htype
      · exact hdedup
      · rw [hdedup, forget_remember hnew]
      · refine absurd ⟨⟨htype, .inl (Option.isSome_of_eq_some hmethod)⟩, hnew, ?_⟩ h
        intro method' reason hmethod' herror
        cases hmethod.symm.trans hmethod'
        cases hanswer.symm.trans herror
    · exact dedup_request_of_not_confirmable htype
  | response =>
    rw [handle_response hhandler]
    cases hkind : m.kind with
    | empty =>
      simp only [response, hkind]
      exact dedup_acknowledged m e
    | request =>
      simp only [response, hkind]
      exact dedup_acknowledged m e
    | response =>
      by_cases htype : m.type = .confirmable
      · cases hseen : e.dedup.contains m.id with
        | true => rw [response_of_seen htype hkind hseen]
        | false =>
          refine absurd ⟨⟨htype, .inr hkind⟩, hseen, ?_⟩ h
          intro method reason hmethod
          cases hkind.symm.trans (Code.kind_of_method? hmethod)
      · have hduplicate : (e.acknowledged m).1.isDuplicate m = false := by
          simp [isDuplicate, htype]
        simp only [response, hkind, hduplicate, remember, if_neg htype]
        exact (dedup_deliver m _).trans (dedup_acknowledged m e)

/-- **What handling a message does to the ids seen**: one that is processed is remembered, a
reset has its id forgotten, and nothing else changes anything. -/
theorem dedup_handle_cases (app : Application ω) (now : Millis) (m : Message) (e : Endpoint κ)
    (w : ω) :
    Processed app (e, w) m ∧ (e.handle app now m w).endpoint.dedup = e.dedup.remember m.id now ∨
      Handler.ofMessage m = .reset ∧
        (e.handle app now m w).endpoint.dedup = e.dedup.forget m.id ∨
      ¬ Processed app (e, w) m ∧ Handler.ofMessage m ≠ .reset ∧
        (e.handle app now m w).endpoint.dedup = e.dedup := by
  by_cases hreset : Handler.ofMessage m = .reset
  · refine .inr (.inl ⟨hreset, ?_⟩)
    rw [handle_reset hreset]
    rfl
  · by_cases hprocessed : Processed app (e, w) m
    · exact .inl ⟨hprocessed, dedup_handle_of_processed hprocessed⟩
    · exact .inr (.inr ⟨hprocessed, hreset, dedup_handle_of_other hprocessed hreset⟩)

/-! ## The history -/

theorem lifetime_step (s : Endpoint κ × ω) (i : Input κ) :
    (step app s i).1.dedup.lifetime = s.1.dedup.lifetime := by
  cases i with
  | message m now =>
    rcases dedup_handle_cases app now m s.1 s.2 with ⟨-, h⟩ | ⟨-, h⟩ | ⟨-, -, h⟩ <;>
      exact (congrArg Dedup.lifetime h).trans rfl
  | sweep now => rfl
  | exchange op => rfl

theorem lifetime_run (s : Endpoint κ × ω) (inputs : List (Input κ)) :
    (run app s inputs).1.dedup.lifetime = s.1.dedup.lifetime := by
  induction inputs generalizing s with
  | nil => rfl
  | cons i inputs ih => exact (ih (step app s i)).trans (lifetime_step s i)

theorem seen_remember_iff {d : Dedup} {id' : MessageId} (hnew : d.contains id' = false) :
    (d.remember id' now).seen[id]? = some expiry ↔
      d.seen[id]? = some expiry ∨ id' = id ∧ expiry = Millis.add now d.lifetime := by
  by_cases hid : id' = id
  · subst hid
    rw [Dedup.remember_new hnew, Dedup.contains_eq_false_iff.1 hnew]
    simp [eq_comm]
  · rw [Dedup.remember_of_ne (Ne.symm hid)]
    simp [hid]

/-- **What is remembered after one input** was remembered and is not forgotten, or was
processed. -/
theorem seen_step_iff {i : Input κ} :
    (step app s i).1.dedup.seen[id]? = some expiry ↔
      s.1.dedup.seen[id]? = some expiry ∧ ¬ Forgets id expiry i ∨ Remembers app s id expiry i := by
  cases i with
  | message m now =>
    rw [step, Forgets, Remembers]
    rcases dedup_handle_cases app now m s.1 s.2 with
      ⟨hprocessed, h⟩ | ⟨hreset, h⟩ | ⟨hprocessed, hreset, h⟩ <;> rw [h]
    · have hreset := hprocessed.handler_ne_reset
      rw [seen_remember_iff hprocessed.new]
      simp [hreset, hprocessed]
    · have hprocessed : ¬ Processed app s m := fun h => h.handler_ne_reset hreset
      rw [Dedup.forget, Exchanges.getElem?_erase_eq_some_iff]
      simp [hreset, hprocessed]
    · simp [hreset, hprocessed]
  | sweep now =>
    simp only [step, Dedup.sweep, Std.ExtTreeMap.getElem?_filter', Option.filter_eq_some_iff,
      Forgets, Remembers]
    simp
  | exchange op => simp [step, Forgets, Remembers]

/-- **What is remembered** is what an earlier input put in and no later one took out. -/
theorem seen_run_iff {inputs : List (Input κ)} (hstart : s.1.dedup.seen = ∅) :
    (run app s inputs).1.dedup.seen[id]? = some expiry ↔
      ∃ before i since, inputs = before ++ i :: since ∧
        Remembers app (run app s before) id expiry i ∧ ∀ j ∈ since, ¬ Forgets id expiry j := by
  induction inputs using List.reverseRecOn with
  | nil =>
    refine iff_of_false ?_ ?_
    · intro h
      rw [run, List.foldl_nil, hstart] at h
      cases Std.ExtTreeMap.getElem?_empty.symm.trans h
    · rintro ⟨before, i, since, h, -⟩
      simp at h
  | append_singleton inputs i ih =>
    rw [run_concat, seen_step_iff, ih]
    -- The input that put the id in is the last one or an earlier one.
    constructor
    · rintro (⟨⟨before, j, since, rfl, hj, hsince⟩, hlast⟩ | hlast)
      · refine ⟨before, j, since ++ [i], by simp, hj, ?_⟩
        rw [List.forall_mem_append, List.forall_mem_singleton]
        exact ⟨hsince, hlast⟩
      · exact ⟨inputs, i, [], rfl, hlast, List.forall_mem_nil _⟩
    · rintro ⟨before, j, since, hsplit, hj, hsince⟩
      rcases List.eq_nil_or_concat since with rfl | ⟨since', last, rfl⟩
      · obtain ⟨rfl, hlast⟩ := List.append_inj' hsplit rfl
        cases hlast
        exact .inr hj
      · rw [List.concat_eq_append] at hsplit hsince
        rw [List.forall_mem_append, List.forall_mem_singleton] at hsince
        rw [← List.cons_append, ← List.append_assoc] at hsplit
        obtain ⟨rfl, hlast⟩ := List.append_inj' hsplit rfl
        cases hlast
        exact .inl ⟨⟨before, j, since', rfl, hj, hsince.1⟩, hsince.2⟩

/-! ## Whom a message reaches -/

/-- A turn calls and changes what handing the response on calls and changes. -/
def HandsOn (e : Endpoint κ) (m : Message) (turn : Turn κ ω) : Prop :=
  turn.effects = (e.deliver m).2 ∧ turn.endpoint.exchanges = (e.deliver m).1.exchanges

/-- The application is asked, and the world is as it leaves it. -/
def Asks (app : Application ω) (method : Method) (m : Message) (w : ω) (turn : Turn κ ω) : Prop :=
  .asked method m ∈ turn.effects ∧ turn.world = (app method m w).2

theorem asks_conclude {answer : Except String Message} :
    .asked method m ∈ (conclude method m answer e w).effects ∧
      (conclude method m answer e w).world = w := by
  cases answer with
  | error reason => exact ⟨List.mem_cons_self, rfl⟩
  | ok answer =>
    rw [conclude]
    split
    · exact ⟨List.mem_cons_self, rfl⟩
    · exact ⟨List.mem_cons_self, rfl⟩

theorem asks_iff (htype : m.type = .confirmable) (hmethod : m.code.method? = some method) :
    Asks app method m w (e.handle app now m w) ↔ e.dedup.contains m.id = false := by
  rw [handle_request hmethod]
  cases hseen : e.dedup.contains m.id with
  | true =>
    rw [request_of_seen htype hseen]
    simp [Asks]
  | false =>
    rw [request_of_new htype hseen]
    exact iff_of_true asks_conclude rfl

/-- **Whom a response is handed on to**: an observer of its token is called, and everybody goes on
waiting. Without one the first pending request with its token has its callback called, if it has
one, and is over. Otherwise nobody waits, which is noted. -/
theorem handsOn_iff_reached {turn : Turn κ ω} :
    HandsOn e m turn ↔
      (∃ c, e.exchanges.observers[m.token]? = some c ∧ turn.effects = [.delivered c m] ∧
        turn.endpoint.exchanges = e.exchanges) ∨
      (∃ id p, e.exchanges.Awaits m.token id p ∧
        turn.effects = p.callback.toList.map (.delivered · m) ∧
        turn.endpoint.exchanges =
          { e.exchanges with
            pending := e.exchanges.pending.erase id
            retries := e.exchanges.retries.erase id }) ∨
      e.exchanges.observers[m.token]? = none ∧
        (∀ (id : MessageId) p, e.exchanges.pending[id]? = some p → p.token ≠ m.token) ∧
        turn.effects = [.noted (.unawaited m)] ∧ turn.endpoint.exchanges = e.exchanges := by
  rw [HandsOn, deliver]
  rcases e.exchanges.deliver_cases m.token with
    ⟨c, hobserver, hd⟩ | ⟨id, p, hawaits, hd⟩ | ⟨hunobserved, hnobody, hd⟩ <;> rw [hd]
  · refine ⟨fun h => .inl ⟨c, hobserver, h⟩, ?_⟩
    rintro (⟨c', hobserver', h⟩ | ⟨id, p, hawaits, -⟩ | ⟨hunobserved, -⟩)
    · cases hobserver.symm.trans hobserver'
      exact h
    · cases hobserver.symm.trans hawaits.unobserved
    · cases hobserver.symm.trans hunobserved
  · refine ⟨fun h => .inr (.inl ⟨id, p, hawaits, h⟩), ?_⟩
    rintro (⟨c, hobserver, -⟩ | ⟨id', p', hawaits', h⟩ | ⟨-, hnobody, -⟩)
    · cases hobserver.symm.trans hawaits.unobserved
    · obtain ⟨rfl, rfl⟩ := hawaits.unique hawaits'
      exact h
    · exact absurd hawaits.token_eq (hnobody id p hawaits.pending)
  · refine ⟨fun h => .inr (.inr ⟨hunobserved, hnobody, h⟩), ?_⟩
    rintro (⟨c, hobserver, -⟩ | ⟨id, p, hawaits, -⟩ | ⟨-, -, h⟩)
    · cases hunobserved.symm.trans hobserver
    · exact absurd hawaits.token_eq (hnobody id p hawaits.pending)
    · exact h

theorem deliver_ne_duplicate (m : Message) (e : Endpoint κ) :
    (e.deliver m).2 ≠ [.noted (.duplicateResponse m)] := by
  unfold deliver
  split
  · rename_i callback exchanges h
    cases callback <;> simp
  · simp

theorem handsOn_iff (htype : m.type = .confirmable) (hkind : m.kind = .response) :
    HandsOn e m (e.handle app now m w) ↔ e.dedup.contains m.id = false := by
  rw [handle_response (handler_of_response htype hkind)]
  cases hseen : e.dedup.contains m.id with
  | true =>
    rw [response_of_seen htype hkind hseen]
    refine iff_of_false ?_ Bool.noConfusion
    rintro ⟨heffects, -⟩
    exact deliver_ne_duplicate m e heffects.symm
  | false =>
    rw [response_of_new htype hkind hseen]
    exact iff_of_true ⟨rfl, (deliver_remembering m e _).2⟩ rfl

/-- A duplicate is acknowledged and noted, and that is all. -/
theorem handle_of_seen (h : Deduplicated m) (hseen : e.dedup.contains m.id = true) :
    ∃ notice, e.handle app now m w =
      ⟨e, w, some { type := .acknowledgement, code := .empty, id := m.id, token := m.token },
        [.noted notice]⟩ := by
  rcases h.kind with hmethod | hkind
  · obtain ⟨method, hmethod⟩ := Option.isSome_iff_exists.1 hmethod
    rw [handle_request hmethod, request_of_seen h.confirmable hseen]
    exact ⟨_, rfl⟩
  · rw [handle_response (handler_of_response h.confirmable hkind),
      response_of_seen h.confirmable hkind hseen]
    exact ⟨_, rfl⟩

/-- A request that fails leaves no trace among the ids seen. -/
theorem dedup_handle_of_error {reason : String} (hmethod : m.code.method? = some method)
    (herror : (app method m w).1 = .error reason) :
    (e.handle app now m w).endpoint.dedup = e.dedup := by
  apply dedup_handle_of_other
  · exact fun h => h.answered method reason hmethod herror
  · rw [handler_of_method? hmethod]
    exact Handler.noConfusion

/-- **Duplicates are told by the history.** After any run of an endpoint that has seen no id yet, an
id is remembered exactly if a message with it was processed before and since then there was no
sweep a lifetime later, and no reset of that id. A confirmable request reaches the application, and
a confirmable response whoever waits for it, exactly if its id is not remembered then. A duplicate
is acknowledged and changes nothing, and a request that fails changes nothing in what is
remembered. -/
theorem duplicates_told_by_history (app : Application ω) (lifetime : Millis)
    (exchanges : Exchanges κ) (w₀ : ω) (inputs : List (Input κ)) :
    let start : Endpoint κ × ω := (⟨{ lifetime }, exchanges⟩, w₀)
    let (e, w) := run app start inputs
    (∀ id, e.dedup.contains id = true ↔
      ∃ before m t since, inputs = before ++ .message m t :: since ∧
        Processed app (run app start before) m ∧ m.id = id ∧
        ∀ i ∈ since, ¬ Forgets id (Millis.add t lifetime) i) ∧
    ∀ m now,
      (∀ method, m.type = .confirmable → m.code.method? = some method →
        (Asks app method m w (e.handle app now m w) ↔ e.dedup.contains m.id = false)) ∧
      (m.type = .confirmable → m.kind = .response →
        (HandsOn e m (e.handle app now m w) ↔ e.dedup.contains m.id = false)) ∧
      (Deduplicated m → e.dedup.contains m.id = true → ∃ notice, e.handle app now m w =
        ⟨e, w, some { type := .acknowledgement, code := .empty, id := m.id, token := m.token },
          [.noted notice]⟩) ∧
      ∀ method reason, m.code.method? = some method → (app method m w).1 = .error reason →
        (e.handle app now m w).endpoint.dedup = e.dedup := by
  intro start
  refine ⟨?_, ?_⟩
  · intro id
    rw [Dedup.contains, Std.ExtTreeMap.contains_eq_isSome_getElem?, Option.isSome_iff_exists]
    constructor
    · rintro ⟨expiry, h⟩
      obtain ⟨before, i, since, hsplit, hi, hsince⟩ := (seen_run_iff rfl).1 h
      cases i with
      | message m t =>
        obtain ⟨hprocessed, hid, rfl⟩ := hi
        rw [lifetime_run start before] at hsince
        exact ⟨before, m, t, since, hsplit, hprocessed, hid, hsince⟩
      | sweep now => exact hi.elim
      | exchange op => exact hi.elim
    · rintro ⟨before, m, t, since, hsplit, hprocessed, hid, hsince⟩
      refine ⟨Millis.add t lifetime, (seen_run_iff rfl).2 ⟨before, .message m t, since, hsplit,
        ⟨hprocessed, hid, ?_⟩, hsince⟩⟩
      rw [lifetime_run start before]
  · intro m now
    exact ⟨fun method htype hmethod => asks_iff htype hmethod, handsOn_iff, handle_of_seen,
      fun method reason => dedup_handle_of_error⟩

/-- Answers a GET and fails on everything else. -/
def sampleApplication : Application Unit := fun method _ w =>
  (if method = .get then .ok { code := ⟨2, 5⟩ } else .error "refused", w)

def sampleGet : Message := { code := ⟨0, 1⟩, id := 7 }

def samplePost : Message := { code := ⟨0, 2⟩, id := 8 }

/-- A request that is answered, one that fails, the reset of another id, and an early sweep. -/
def sampleInputs : List (Input Unit) :=
  [.message sampleGet 0, .message samplePost 0, .message { type := .reset, id := 9 } 50, .sweep 99]

/-- A request that waits for a response. -/
def sampleAsked : List (Input Unit) := [.exchange (.register .empty (.once (some ())) 0)]

theorem sampleAsked_awaits :
    (run sampleApplication (⟨{ lifetime := 100 }, .new {} 0⟩, ()) sampleAsked).1.exchanges.Awaits
      .empty 1 ⟨.empty, 247000, some ()⟩ := by
  refine ⟨by decide +kernel, by decide +kernel, rfl, ?_⟩
  intro id p hlt hp
  cases UInt16.lt_one_iff.1 hlt
  cases hp

def sampleContent : Message := { code := ⟨2, 5⟩, id := 11 }

/-- A repeated request is acknowledged, and one that failed before reaches the application again. A
response is handed to the request that waits for it, which is over then, and is only acknowledged
when it is repeated. -/
theorem duplicates_told_by_history_sample :
    (let (e, w) := run sampleApplication (⟨{ lifetime := 100 }, .new {} 0⟩, ()) sampleInputs
    e.dedup.contains 7 = true ∧ Deduplicated sampleGet ∧
      (∃ notice, e.handle sampleApplication 99 sampleGet w =
        ⟨e, w, some { type := .acknowledgement, code := .empty, id := 7, token := .empty },
          [.noted notice]⟩) ∧
      e.dedup.contains 8 = false ∧
      Asks sampleApplication .post samplePost w
        (e.handle sampleApplication 99 samplePost w)) ∧
    (let (e, w) := run sampleApplication (⟨{ lifetime := 100 }, .new {} 0⟩, ()) sampleAsked
    let turn := e.handle sampleApplication 10 sampleContent w
    e.dedup.contains 11 = false ∧ HandsOn e sampleContent turn ∧
      turn.effects = [.delivered () sampleContent] ∧
      turn.endpoint.exchanges.pending[(1 : MessageId)]? = none) ∧
    let (e, w) := run sampleApplication (⟨{ lifetime := 100 }, .new {} 0⟩, ())
      (sampleAsked ++ [.message sampleContent 10])
    let turn := e.handle sampleApplication 20 sampleContent w
    e.dedup.contains 11 = true ∧ ¬ HandsOn e sampleContent turn ∧
      ∃ notice, turn =
        ⟨e, w, some { type := .acknowledgement, code := .empty, id := 11, token := .empty },
          [.noted notice]⟩ := by
  let start : Endpoint Unit × Unit := (⟨{ lifetime := 100 }, .new {} 0⟩, ())
  refine ⟨?_, ?_, ?_⟩
  · have hnew : (run sampleApplication start sampleInputs).1.dedup.contains 8 = false := by
      decide +kernel
    have hget : Deduplicated sampleGet := ⟨rfl, .inl rfl⟩
    obtain ⟨hhistory, hmessage⟩ := duplicates_told_by_history sampleApplication 100
      (.new {} 0 : Exchanges Unit) () sampleInputs
    have hseen : (run sampleApplication start sampleInputs).1.dedup.contains 7 = true := by
      refine (hhistory 7).2 ⟨[], sampleGet, 0, _, rfl, ⟨hget, by decide +kernel, ?_⟩, rfl, ?_⟩
      · intro method reason hmethod herror
        cases hmethod
        cases herror
      · have hpost : samplePost.id ≠ 7 := by decide
        have hreset : (9 : MessageId) ≠ 7 := by decide
        have hearly : ¬ Millis.add 0 100 ≤ 99 := by decide +kernel
        rw [List.forall_mem_cons, List.forall_mem_cons, List.forall_mem_singleton]
        exact ⟨fun h => hpost h.1, fun h => hreset h.1, hearly⟩
    exact ⟨hseen, hget, (hmessage sampleGet 99).2.2.1 hget hseen, hnew,
      ((hmessage samplePost 99).1 .post rfl rfl).2 hnew⟩
  · obtain ⟨-, hmessage⟩ := duplicates_told_by_history sampleApplication 100
      (.new {} 0 : Exchanges Unit) () sampleAsked
    have hnew : (run sampleApplication start sampleAsked).1.dedup.contains 11 = false := by
      decide +kernel
    have hhands := ((hmessage sampleContent 10).2.1 rfl rfl).2 hnew
    rcases handsOn_iff_reached.1 hhands with
      ⟨c, hobserver, -⟩ | ⟨id, p, hawaits, heffects, hexchanges⟩ | ⟨-, hnobody, -⟩
    · cases sampleAsked_awaits.unobserved.symm.trans hobserver
    · obtain ⟨rfl, rfl⟩ := sampleAsked_awaits.unique hawaits
      refine ⟨hnew, hhands, heffects, ?_⟩
      dsimp only
      rw [hexchanges]
      exact Std.ExtTreeMap.getElem?_erase_self
    · exact absurd sampleAsked_awaits.token_eq (hnobody 1 _ sampleAsked_awaits.pending)
  · obtain ⟨-, hmessage⟩ := duplicates_told_by_history sampleApplication 100
      (.new {} 0 : Exchanges Unit) () (sampleAsked ++ [.message sampleContent 10])
    have hseen : (run sampleApplication start
        (sampleAsked ++ [.message sampleContent 10])).1.dedup.contains 11 = true := by
      decide +kernel
    exact ⟨hseen, ((hmessage sampleContent 20).2.1 rfl rfl).not.2 (ne_false_of_eq_true hseen),
      (hmessage sampleContent 20).2.2.1 ⟨rfl, .inr rfl⟩ hseen⟩

end Coap.Endpoint
