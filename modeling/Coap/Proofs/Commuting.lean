import Coap.Proofs.Correlation
import Coap.Proofs.Footprint

/-!
# Independent responses commute

An acknowledgement acts through its id and a response through its token, and both may concern one
request: the one stops it from being sent again, the other ends it. All that either does is to take
entries out, and neither changes for whom the other looks, so two messages with different ids and
tokens may come in either order.
-/
namespace Coap

namespace Exchanges

variable {κ : Type} {x : Exchanges κ} {id : MessageId} {token : Token} {m m' : Message}
  {p : Pending κ}

/-! ## Who is awaited -/

theorem awaits_acknowledgedBy_iff :
    (x.acknowledgedBy m).Awaits token id p ↔ x.Awaits token id p := by
  unfold acknowledgedBy
  split
  · exact ⟨fun h => ⟨h.unobserved, h.pending, h.token_eq, h.smallest⟩,
      fun h => ⟨h.unobserved, h.pending, h.token_eq, h.smallest⟩⟩
  · rfl

/-- The end of a request does not matter to whoever waits under another token. -/
theorem awaits_cancel_iff {id' : MessageId} {p' : Pending κ} (hp' : x.pending[id']? = some p')
    (hne : p'.token ≠ token) : (x.cancel id').Awaits token id p ↔ x.Awaits token id p := by
  have hother : ∀ {i q}, x.pending[i]? = some q → q.token = token → id' ≠ i := by
    rintro i q hq htoken rfl
    cases hp'.symm.trans hq
    exact hne htoken
  constructor
  · rintro ⟨hunobserved, hpending, htoken, hsmallest⟩
    refine ⟨hunobserved, (getElem?_erase_eq_some_iff.1 hpending).1, htoken, ?_⟩
    intro i q hlt hq hq'
    exact hsmallest i q hlt (getElem?_erase_eq_some_iff.2 ⟨hq, hother hq hq'⟩) hq'
  · rintro ⟨hunobserved, hpending, htoken, hsmallest⟩
    have hstays := getElem?_erase_eq_some_iff.2 ⟨hpending, hother hpending htoken⟩
    refine ⟨hunobserved, hstays, htoken, ?_⟩
    intro i q hlt hq
    exact hsmallest i q hlt (getElem?_erase_eq_some_iff.1 hq).1

theorem awaits_deliver_iff (hne : m.token ≠ token) :
    (x.apply (.deliver m)).Awaits token id p ↔ x.Awaits token id p := by
  rw [apply_deliver]
  cases hanswered : x.answered? m.token with
  | none => rfl
  | some id' =>
    obtain ⟨p', hp'⟩ := answered?_eq_some_iff.1 hanswered
    exact awaits_cancel_iff hp'.pending (hp'.token_eq ▸ hne)

theorem observers_deliver (m : Message) (x : Exchanges κ) :
    (x.apply (.deliver m)).observers = x.observers := by
  rw [apply_deliver]
  cases x.answered? m.token <;> rfl

theorem answered?_deliver (hne : m.token ≠ token) :
    (x.apply (.deliver m)).answered? token = x.answered? token := by
  apply Option.ext
  intro id
  simp only [answered?_eq_some_iff, awaits_deliver_iff hne]

theorem called_deliver_eq_some_iff {c : κ} :
    x.called (.deliver m) = some c ↔ x.observers[m.token]? = some c ∨
      ∃ id p, x.Awaits m.token id p ∧ p.callback = some c := by
  rw [called_eq_some_iff]
  constructor
  · rintro ⟨_, heq, h⟩
    cases heq
    exact h
  · exact fun h => ⟨m, rfl, h⟩

theorem called_acknowledgedBy :
    (x.acknowledgedBy m').called (.deliver m) = x.called (.deliver m) := by
  apply Option.ext
  intro c
  simp only [called_deliver_eq_some_iff, awaits_acknowledgedBy_iff, observers_acknowledgedBy]

theorem called_deliver (hne : m'.token ≠ m.token) :
    (x.apply (.deliver m')).called (.deliver m) = x.called (.deliver m) := by
  apply Option.ext
  intro c
  simp only [called_deliver_eq_some_iff, awaits_deliver_iff hne, observers_deliver]

/-! ## What is taken out -/

theorem acknowledgedBy_comm (m m' : Message) (x : Exchanges κ) :
    (x.acknowledgedBy m).acknowledgedBy m' = (x.acknowledgedBy m').acknowledgedBy m := by
  unfold acknowledgedBy
  by_cases h : m.type = .acknowledgement <;> by_cases h' : m'.type = .acknowledgement <;>
    simp only [h, h', if_true, if_false, acknowledge, erase_comm m.id m'.id]

theorem deliver_acknowledgedBy (m m' : Message) (x : Exchanges κ) :
    (x.acknowledgedBy m').apply (.deliver m) = (x.apply (.deliver m)).acknowledgedBy m' := by
  rw [apply_deliver, apply_deliver, answered?_acknowledgedBy]
  cases x.answered? m.token with
  | none => rfl
  | some id =>
    show (x.acknowledgedBy m').cancel id = (x.cancel id).acknowledgedBy m'
    unfold acknowledgedBy
    split
    · simp only [acknowledge, cancel, erase_comm m'.id id]
    · rfl

theorem cancel_comm (id id' : MessageId) (x : Exchanges κ) :
    (x.cancel id).cancel id' = (x.cancel id').cancel id := by
  simp only [cancel, erase_comm id id']

theorem deliver_comm (hne : m.token ≠ m'.token) :
    (x.apply (.deliver m)).apply (.deliver m') = (x.apply (.deliver m')).apply (.deliver m) := by
  rw [apply_deliver m', apply_deliver m (x.apply (.deliver m')), answered?_deliver hne,
    answered?_deliver hne.symm, apply_deliver, apply_deliver]
  cases x.answered? m.token <;> cases x.answered? m'.token <;> try rfl
  exact cancel_comm _ _ x

theorem answeredBy_comm (hne : m.token ≠ m'.token) (b b' : Bool) (x : Exchanges κ) :
    (x.answeredBy m b).answeredBy m' b' = (x.answeredBy m' b').answeredBy m b := by
  cases b <;> cases b' <;> simp only [answeredBy, if_true, Bool.false_eq_true, if_false]
  · exact acknowledgedBy_comm m m' x
  · rw [acknowledgedBy_comm, deliver_acknowledgedBy]
  · rw [← deliver_acknowledgedBy, acknowledgedBy_comm]
  · rw [← deliver_acknowledgedBy, ← deliver_acknowledgedBy, deliver_comm hne, acknowledgedBy_comm]

theorem called_answeredBy (hne : m'.token ≠ m.token) (b : Bool) :
    (x.answeredBy m' b).called (.deliver m) = x.called (.deliver m) := by
  unfold answeredBy
  split
  · rw [called_deliver hne, called_acknowledgedBy]
  · exact called_acknowledgedBy

end Exchanges

namespace Dedup

variable {d : Dedup} {id id' : MessageId}

theorem seen_remember (d : Dedup) (id id' : MessageId) (now : Millis) :
    (d.remember id now).seen[id']? =
      if id = id' ∧ d.seen[id']? = none then some (Millis.add now d.lifetime)
      else d.seen[id']? := by
  by_cases hid : id = id'
  · subst hid
    cases hseen : d.seen[id]? with
    | none => simp [remember_new (contains_eq_false_iff.2 hseen)]
    | some expiry => simp [remember_of_seen hseen]
  · simp [remember_of_ne (Ne.symm hid), hid]

theorem remember_comm (hne : id ≠ id') (now now' : Millis) :
    (d.remember id now).remember id' now' = (d.remember id' now').remember id now := by
  have hseen : ((d.remember id now).remember id' now').seen =
      ((d.remember id' now').remember id now).seen := by
    apply Std.ExtTreeMap.ext_getElem?
    intro i
    simp only [seen_remember]
    have hlifetime : ∀ i t, (d.remember i t).lifetime = d.lifetime := fun _ _ => rfl
    simp only [hlifetime]
    grind
  exact congrArg (Dedup.mk d.lifetime) hseen

theorem contains_remember_of_ne (hne : id ≠ id') (now : Millis) :
    (d.remember id' now).contains id = d.contains id := by
  rw [contains, contains, Std.ExtTreeMap.contains_eq_isSome_getElem?, remember_of_ne hne,
    Std.ExtTreeMap.contains_eq_isSome_getElem?]

/-- The cache after a message that the response handler takes. -/
def heard (m : Message) (now : Millis) (delivers : Bool) (d : Dedup) : Dedup :=
  if delivers = true ∧ m.type = .confirmable then d.remember m.id now else d

theorem heard_comm {m m' : Message} (hne : m.id ≠ m'.id) (now now' : Millis) (b b' : Bool) :
    (d.heard m now b).heard m' now' b' = (d.heard m' now' b').heard m now b := by
  unfold heard
  split <;> split <;> first | rfl | exact remember_comm hne now now'

theorem contains_heard_of_ne {m : Message} (hne : id ≠ m.id) (now : Millis) (b : Bool) :
    (d.heard m now b).contains id = d.contains id := by
  unfold heard
  split
  · exact contains_remember_of_ne hne now
  · rfl

end Dedup

/-- The callback that is called with a response. -/
def Effect.call? {κ : Type} : Effect κ → Option (κ × Message)
  | .delivered callback response => some (callback, response)
  | _ => none

/-- The callbacks that are called, each with its response, in order. -/
def Turn.calls {κ ω : Type} (turn : Turn κ ω) : List (κ × Message) :=
  turn.effects.filterMap Effect.call?

namespace Endpoint

variable {κ ω : Type} {app : Application ω} {now : Millis} {m : Message} {e : Endpoint κ} {w : ω}

theorem response_of_delivers (h : e.delivers m = true) :
    e.response now m w =
      ⟨(((e.acknowledged m).1.remember m now).deliver m).1, w,
        if m.type = .confirmable then some (m.ack m.id) else none,
        (e.acknowledged m).2 ++ (((e.acknowledged m).1.remember m now).deliver m).2⟩ := by
  obtain ⟨hkind, hnew⟩ := delivers_iff.1 h
  simp only [response, hkind, isDuplicate_acknowledged, hnew, Bool.false_eq_true, if_false]

theorem response_of_not_delivers (now : Millis) (w : ω) (h : e.delivers m = false) :
    ∃ (notices : List Notice) (reply : Option Message), e.response now m w =
      ⟨(e.acknowledged m).1, w, reply, (e.acknowledged m).2 ++ notices.map .noted⟩ := by
  cases hkind : m.kind with
  | empty =>
    simp only [response, hkind]
    by_cases htype : m.type = .acknowledgement
    · exact ⟨[], none, by simp [htype]⟩
    · exact ⟨[.ignored m], none, by simp [htype]⟩
  | request =>
    simp only [response, hkind]
    exact ⟨[_], none, rfl⟩
  | response =>
    have hseen : e.isDuplicate m = true := by
      simpa [delivers, hkind] using h
    simp only [response, hkind, isDuplicate_acknowledged, hseen, if_true]
    exact ⟨[_], _, rfl⟩

theorem dedup_remember (m : Message) (now : Millis) (e : Endpoint κ) :
    (e.remember m now).dedup =
      if m.type = .confirmable then e.dedup.remember m.id now else e.dedup := by
  unfold remember
  split <;> rfl

theorem dedup_response (h : Handler.ofMessage m = .response) :
    (e.handle app now m w).endpoint.dedup = e.dedup.heard m now (e.delivers m) := by
  rw [handle_response h, Dedup.heard]
  cases hdelivers : e.delivers m with
  | true =>
    rw [response_of_delivers hdelivers, dedup_deliver, dedup_remember, dedup_acknowledged]
    simp only [true_and]
  | false =>
    obtain ⟨notices, reply, hresponse⟩ := response_of_not_delivers now w hdelivers
    rw [hresponse, dedup_acknowledged, if_neg (by simp)]

/-- What a message that the response handler takes leaves behind. -/
theorem endpoint_response (h : Handler.ofMessage m = .response) :
    (e.handle app now m w).endpoint =
      ⟨e.dedup.heard m now (e.delivers m), e.exchanges.answeredBy m (e.delivers m)⟩ :=
  congrArg₂ Endpoint.mk (dedup_response h) (exchanges_response h)

theorem calls_deliver (m : Message) (e : Endpoint κ) :
    (e.deliver m).2.filterMap Effect.call? =
      (e.exchanges.called (.deliver m)).toList.map (·, m) := by
  unfold deliver
  rw [Exchanges.called]
  cases e.exchanges.deliver m.token with
  | none => rfl
  | some found =>
    obtain ⟨callback, exchanges⟩ := found
    cases callback <;> rfl

theorem calls_acknowledged (m : Message) (e : Endpoint κ) :
    (e.acknowledged m).2.filterMap Effect.call? = [] := by
  unfold acknowledged
  split <;> rfl

theorem exchanges_acknowledged (m : Message) (e : Endpoint κ) :
    (e.acknowledged m).1.exchanges = e.exchanges.acknowledgedBy m := by
  rw [(acknowledged_moves m e).eq_after, Exchanges.after_acknowledging]

theorem calls_response (h : Handler.ofMessage m = .response) :
    (e.handle app now m w).calls =
      if e.delivers m then (e.exchanges.called (.deliver m)).toList.map (·, m) else [] := by
  rw [handle_response h, Turn.calls]
  cases hdelivers : e.delivers m with
  | true =>
    rw [response_of_delivers hdelivers, List.filterMap_append, calls_acknowledged, calls_deliver,
      exchanges_remember, exchanges_acknowledged, Exchanges.called_acknowledgedBy, if_pos rfl]
    rfl
  | false =>
    obtain ⟨notices, reply, hresponse⟩ := response_of_not_delivers now w hdelivers
    rw [hresponse]
    simp [calls_acknowledged, List.filterMap_map, Function.comp_def, Effect.call?]

theorem delivers_response {m' : Message} (h : Handler.ofMessage m' = .response)
    (hid : m.id ≠ m'.id) (app : Application ω) (now : Millis) (e : Endpoint κ) (w : ω) :
    (e.handle app now m' w).endpoint.delivers m = e.delivers m := by
  rw [delivers, delivers, isDuplicate, isDuplicate, dedup_response h,
    Dedup.contains_heard_of_ne hid]

theorem world_response (h : Handler.ofMessage m = .response) (app : Application ω) (now : Millis)
    (e : Endpoint κ) (w : ω) : (e.handle app now m w).world = w := by
  rw [handle_response h]
  cases hdelivers : e.delivers m with
  | true => rw [response_of_delivers hdelivers]
  | false =>
    obtain ⟨notices, reply, hresponse⟩ := response_of_not_delivers now w hdelivers
    rw [hresponse]

theorem reply_of_response (h : Handler.ofMessage m = .response) (app : Application ω)
    (now : Millis) (e : Endpoint κ) (w : ω) :
    (e.handle app now m w).reply =
      if m.kind = .response ∧ m.type = .confirmable then some (m.ack m.id) else none := by
  rw [handle_response h, reply_response]

/-- **Independent responses commute.** Of two messages with different ids and different tokens that
the response handler takes, each at its own time, it does not matter which is handled first: the
endpoint is the same in the end, each gets the same reply, and each calls the same callbacks. The
application is not involved. -/
theorem responses_commute {m₁ m₂ : Message} (h₁ : Handler.ofMessage m₁ = .response)
    (h₂ : Handler.ofMessage m₂ = .response) (hid : m₁.id ≠ m₂.id) (htoken : m₁.token ≠ m₂.token)
    (app : Application ω) (t₁ t₂ : Millis) (e : Endpoint κ) (w : ω) :
    let first := e.handle app t₁ m₁ w
    let second := first.endpoint.handle app t₂ m₂ first.world
    let first' := e.handle app t₂ m₂ w
    let second' := first'.endpoint.handle app t₁ m₁ first'.world
    second.endpoint = second'.endpoint ∧ second.world = w ∧ second'.world = w ∧
      first.reply = second'.reply ∧ second.reply = first'.reply ∧
      first.calls = second'.calls ∧ second.calls = first'.calls ∧
      (first.calls ++ second.calls).Perm (first'.calls ++ second'.calls) := by
  intro first second first' second'
  have hdelivers₁ : first'.endpoint.delivers m₁ = e.delivers m₁ :=
    delivers_response h₂ hid app t₂ e w
  have hdelivers₂ : first.endpoint.delivers m₂ = e.delivers m₂ :=
    delivers_response h₁ hid.symm app t₁ e w
  have hendpoint : second.endpoint = second'.endpoint := by
    calc second.endpoint
        = ⟨(e.dedup.heard m₁ t₁ (e.delivers m₁)).heard m₂ t₂ (e.delivers m₂),
            (e.exchanges.answeredBy m₁ (e.delivers m₁)).answeredBy m₂ (e.delivers m₂)⟩ := by
          rw [endpoint_response h₂, hdelivers₂, endpoint_response h₁]
      _ = ⟨(e.dedup.heard m₂ t₂ (e.delivers m₂)).heard m₁ t₁ (e.delivers m₁),
            (e.exchanges.answeredBy m₂ (e.delivers m₂)).answeredBy m₁ (e.delivers m₁)⟩ := by
          rw [Dedup.heard_comm hid, Exchanges.answeredBy_comm htoken]
      _ = second'.endpoint := by
          rw [endpoint_response h₁, hdelivers₁, endpoint_response h₂]
  have hcalls₁ : first.calls = second'.calls := by
    rw [calls_response h₁, calls_response h₁, hdelivers₁, exchanges_response h₂,
      Exchanges.called_answeredBy htoken.symm]
  have hcalls₂ : second.calls = first'.calls := by
    rw [calls_response h₂, calls_response h₂, hdelivers₂, exchanges_response h₁,
      Exchanges.called_answeredBy htoken]
  refine ⟨hendpoint, ?_, ?_, ?_, ?_, hcalls₁, hcalls₂, ?_⟩
  · exact (world_response h₂ ..).trans (world_response h₁ ..)
  · exact (world_response h₁ ..).trans (world_response h₂ ..)
  · exact (reply_of_response h₁ ..).trans (reply_of_response h₁ ..).symm
  · exact (reply_of_response h₂ ..).trans (reply_of_response h₂ ..).symm
  · rw [hcalls₁, hcalls₂]
    exact List.perm_append_comm

/-- A request waits for its first response. -/
def sampleWaiting : Endpoint Unit :=
  let request : Message := { Session.sampleRequest with id := 1 }
  ⟨{ lifetime := 100 }, (.new {} 0 : Exchanges Unit).after
    [.register request.token (.once (some ())) 0, .schedule request 0]⟩

/-- An empty acknowledgement of that request, and its response in a message of its own, change
places: either way the request is no longer sent and its callback has been called once. -/
theorem responses_commute_sample :
    let acknowledgement : Message := { type := .acknowledgement, code := .empty, id := 1 }
    let answer : Message := { code := ⟨2, 5⟩, id := 9, token := Session.sampleRequest.token }
    let first := sampleWaiting.handle (fun _ _ w => (.error "", w)) 40 acknowledgement ()
    let second := first.endpoint.handle (fun _ _ w => (.error "", w)) 50 answer ()
    let first' := sampleWaiting.handle (fun _ _ w => (.error "", w)) 50 answer ()
    let second' := first'.endpoint.handle (fun _ _ w => (.error "", w)) 40 acknowledgement ()
    second.endpoint = second'.endpoint ∧ second.reply = some (answer.ack 9) ∧
      first.calls = [] ∧ second.calls = [((), answer)] ∧ first'.calls = [((), answer)] ∧
      second.endpoint.exchanges.retries.isEmpty = true ∧
      second.endpoint.exchanges.pending.isEmpty = true := by
  intro acknowledgement answer first second first' second'
  obtain ⟨hendpoint, -, -, -, -, -, hcalls, -⟩ :=
    responses_commute (by decide : Handler.ofMessage acknowledgement = .response)
      (by decide : Handler.ofMessage answer = .response) (by decide) (by decide)
      (fun _ _ w => (.error "", w)) 40 50 sampleWaiting ()
  have hsecond : second.calls = [((), answer)] := by decide +kernel
  exact ⟨hendpoint, by decide +kernel, by decide +kernel, hsecond, hcalls.symm.trans hsecond,
    by decide +kernel, by decide +kernel⟩

end Endpoint
end Coap
