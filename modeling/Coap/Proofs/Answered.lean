import Coap.Proofs.Run
import Coap.Proofs.RetrySchedule

/-!
# Requests that were answered

A response that reaches the callback of a request ends the request: nothing is sent again or given
up under its id until the id is used again. A response that reaches an observer leaves the request
by which it was registered to be acknowledged: it is sent again unless the response itself was the
acknowledgement.
-/
namespace Coap

namespace Exchanges

variable {κ : Type} {x : Exchanges κ} {id : MessageId} {m : Message} {c : κ}
  {ops : List (Operation κ)}

/-- No sweep yields an event of the id. -/
def Silent (id : MessageId) (x : Exchanges κ) : Prop :=
  ∀ now, ∀ e ∈ (x.sweep now).1, e.id ≠ id

theorem silent_iff (hfiled : x.Filed) : Silent id x ↔ x.retries[id]? = none := by
  constructor
  · intro hsilent
    rw [Option.eq_none_iff_forall_ne_some]
    intro r hr
    -- A sweep at the time at which the record falls due does not pass over it.
    have hdue := hfiled.filter_sweep id r.due
    have hverdict : r.verdict x.config r.due ≠ .waiting := by
      unfold Retry.verdict
      grind
    rw [hr, Option.bind_some, eventOf, List.filter_eq_nil_iff.2] at hdue
    · cases hv : r.verdict x.config r.due with
      | waiting => exact hverdict hv
      | again next =>
        rw [hv] at hdue
        cases hdue
      | givenUp =>
        rw [hv] at hdue
        cases hdue
    · intro e he
      simpa using hsilent r.due e he
  · intro hnone now e he heq
    have hevents := hfiled.filter_sweep id now
    rw [hnone] at hevents
    have hmem : e ∈ (x.sweep now).1.filter (·.id == id) :=
      List.mem_filter.2 ⟨he, beq_iff_eq.2 heq⟩
    rw [hevents] at hmem
    cases hmem

/-- Nothing is scheduled under the id. -/
def Unscheduled (id : MessageId) (ops : List (Operation κ)) : Prop :=
  ∀ m now, .schedule m now ∈ ops → m.id ≠ id

/-- Silence lasts until the id is used again. -/
theorem Silent.after (hsilent : Silent id x) (hfiled : x.Filed) (hops : Unscheduled id ops) :
    Silent id (x.after ops) ∧ ∀ e ∈ x.events ops, e.id ≠ id := by
  induction ops generalizing x with
  | nil => exact ⟨hsilent, List.forall_mem_nil _⟩
  | cons op ops ih =>
    have hnone := (silent_iff hfiled).1 hsilent
    have hnone' : (x.apply op).retries[id]? = none := by
      rw [Option.eq_none_iff_forall_ne_some]
      intro r' hr'
      rcases message_of_retries_apply hr' with ⟨r, hr, -⟩ | ⟨⟨now, rfl⟩, hid⟩
      · cases hnone.symm.trans hr
      · exact hops _ now List.mem_cons_self hid
    have hsilent' := (silent_iff (hfiled.apply op)).2 hnone'
    obtain ⟨hafter, hevents⟩ := ih hsilent' (hfiled.apply op)
      fun m now hm => hops m now (List.mem_cons_of_mem _ hm)
    refine ⟨hafter, ?_⟩
    intro e he
    rcases List.mem_append.1 he with he | he
    · cases op with
      | sweep now => exact hsilent now e he
      | _ => cases he
    · exact hevents e he

/-! ## A response -/

/-- What a response that is handed on does to the exchanges. -/
def responseOps (m : Message) (x : Exchanges κ) : List (Operation κ) :=
  (if m.type = .acknowledgement ∧ x.retries.contains m.id then [.acknowledge m.id] else []) ++
    [.deliver m]

/-- The exchanges after a response acknowledged what it names. -/
def acknowledgedBy (m : Message) (x : Exchanges κ) : Exchanges κ :=
  if m.type = .acknowledgement then x.acknowledge m.id else x

theorem acknowledge_of_not_contains (h : x.retries.contains id = false) : x.acknowledge id = x := by
  rw [acknowledge, erase_of_none (contains_eq_false_iff.1 h)]

theorem after_acknowledging (m : Message) (x : Exchanges κ) :
    x.after (if m.type = .acknowledgement ∧ x.retries.contains m.id then [.acknowledge m.id]
      else []) = x.acknowledgedBy m := by
  rw [acknowledgedBy]
  by_cases htype : m.type = .acknowledgement
  · cases hcontains : x.retries.contains m.id with
    | true =>
      rw [if_pos ⟨htype, rfl⟩, if_pos htype]
      rfl
    | false =>
      rw [if_neg (by simp), if_pos htype, acknowledge_of_not_contains hcontains]
      rfl
  · rw [if_neg (fun h => htype h.1), if_neg htype]
    rfl

theorem after_responseOps (m : Message) (x : Exchanges κ) :
    x.after (responseOps m x) = (x.acknowledgedBy m).apply (.deliver m) := by
  rw [responseOps, after_append, after_acknowledging]
  rfl

theorem retries_acknowledgedBy_iff :
    (x.acknowledgedBy m).retries[id]? = none ↔
      x.retries[id]? = none ∨ m.type = .acknowledgement ∧ m.id = id := by
  unfold acknowledgedBy
  split
  · rename_i htype
    rw [acknowledge]
    by_cases hid : m.id = id
    · simp [hid, htype]
    · simp [getElem?_erase_of_ne hid, hid]
  · rename_i htype
    simp [htype]

theorem pending_acknowledgedBy (m : Message) (x : Exchanges κ) :
    (x.acknowledgedBy m).pending = x.pending := by
  unfold acknowledgedBy
  split <;> rfl

theorem observers_acknowledgedBy (m : Message) (x : Exchanges κ) :
    (x.acknowledgedBy m).observers = x.observers := by
  unfold acknowledgedBy
  split <;> rfl

/-- The request is the only one with its token, and nobody observes under that. -/
structure Sole (id : MessageId) (token : Token) (x : Exchanges κ) : Prop where
  unobserved : x.observers[token]? = none
  pending : ∃ p, x.pending[id]? = some p ∧ p.token = token
  unshared : ∀ id' p, x.pending[id']? = some p → p.token = token → id' = id

theorem Sole.awaits {token : Token} (h : Sole id token x) : ∃ p, x.Awaits token id p := by
  obtain ⟨p, hp, htoken⟩ := h.pending
  refine ⟨p, h.unobserved, hp, htoken, ?_⟩
  intro id' p' hlt hp' htoken'
  rw [h.unshared id' p' hp' htoken'] at hlt
  exact UInt16.lt_irrefl _ hlt

theorem sole_of_toList {p : Pending κ} (hpending : x.pending.toList = [(id, p)])
    (hunobserved : x.observers[p.token]? = none) : Sole id p.token x := by
  have honly : ∀ id' p', x.pending[id']? = some p' ↔ id' = id ∧ p' = p := by
    intro id' p'
    rw [← Std.ExtTreeMap.mem_toList_iff_getElem?_eq_some, hpending, List.mem_singleton,
      Prod.mk.injEq]
  exact ⟨hunobserved, ⟨p, (honly id p).2 ⟨rfl, rfl⟩, rfl⟩, fun id' p' h _ => ((honly id' p').1 h).1⟩

/-- The response ends the request. -/
theorem retries_of_sole (h : Sole id m.token x) :
    (x.after (responseOps m x)).retries[id]? = none := by
  have hsole : Sole id m.token (x.acknowledgedBy m) := by
    refine ⟨?_, ?_, ?_⟩
    · rw [observers_acknowledgedBy]
      exact h.unobserved
    · rw [pending_acknowledgedBy]
      exact h.pending
    · rw [pending_acknowledgedBy]
      exact h.unshared
  obtain ⟨p, hp⟩ := hsole.awaits
  rw [after_responseOps, apply, hp.deliver]
  exact Std.ExtTreeMap.getElem?_erase_self

/-- The response reaches the observer and ends nothing. -/
theorem retries_of_observed (h : x.observers[m.token]? = some c) :
    (x.after (responseOps m x)).retries[id]? = none ↔
      x.retries[id]? = none ∨ m.type = .acknowledgement ∧ m.id = id := by
  have hobserver : (x.acknowledgedBy m).observers[m.token]? = some c := by
    rw [observers_acknowledgedBy]
    exact h
  rw [after_responseOps, apply, deliver_of_observer hobserver]
  exact retries_acknowledgedBy_iff

end Exchanges

namespace Endpoint

variable {κ ω : Type}

theorem exchangeOps_of_deliver {app : Application ω} {m m' : Message} {e : Endpoint κ} {w : ω}
    (h : .deliver m ∈ e.exchangeOps app m' w) :
    e.exchangeOps app m' w = Exchanges.responseOps m e.exchanges := by
  unfold exchangeOps at h ⊢
  unfold Exchanges.responseOps
  grind

end Endpoint

namespace Session

variable {κ ω : Type} {h : Host ω} {l : Live κ ω} {m : Message}

theorem exchanges_of_arrivalOf? {datagram : Bytes} {a : Arrival κ ω}
    (ha : arrivalOf? h datagram l = some a) : a.state.exchanges = l.exchanges := by
  have hquiet := Action.letIn_quiet (l := l) (h.keeps_const ()) datagram
  rw [arrivalOf?] at ha
  rcases hletIn : Action.letIn h datagram l with ⟨f | ⟨now, m⟩, l₁⟩ <;> rw [hletIn] at ha <;>
    cases ha
  exact congrArg Endpoint.exchanges (Action.ensures_of_eq hquiet hletIn).endpoint

theorem exchanges_of_arrival? {op : Operation κ} {a : Arrival κ ω}
    (ha : arrival? h l op = some a) : a.state.exchanges = l.exchanges := by
  cases op with
  | receive datagram => exact exchanges_of_arrivalOf? ha
  | collect =>
    rcases Action.receiveReady_cases h l with ⟨hnone, -⟩ | ⟨datagram, world, hsome, -⟩
    · rw [arrival?, hnone] at ha
      cases ha
    · rw [arrival?, hsome] at ha
      exact exchanges_of_arrivalOf? (l := { l with world }) ha
  | _ => cases ha

theorem responseOps_of_arrival {op : Operation κ}
    (hdeliver : .deliver m ∈ (arrival? h l op).elim [] (·.exchangeOps h)) :
    (arrival? h l op).elim [] (·.exchangeOps h) = Exchanges.responseOps m l.exchanges := by
  cases ha : arrival? h l op with
  | none =>
    rw [ha] at hdeliver
    cases hdeliver
  | some a =>
    rw [ha] at hdeliver
    rw [← exchanges_of_arrival? ha]
    exact Endpoint.exchangeOps_of_deliver hdeliver

/-- Only a message that comes in hands a response on. -/
theorem exchangeOps_of_deliver {op : Operation κ} (hdeliver : .deliver m ∈ exchangeOps h l op) :
    exchangeOps h l op = Exchanges.responseOps m l.exchanges := by
  cases op with
  | receive datagram => exact responseOps_of_arrival hdeliver
  | collect => exact responseOps_of_arrival hdeliver
  | tick =>
    simp only [exchangeOps, Action.tickOps, Action.pingOps] at hdeliver
    grind
  | sendRequest m callback =>
    simp only [exchangeOps, Action.sendOps, Action.requestOps] at hdeliver
    grind
  | observe m callback =>
    simp only [exchangeOps, Action.sendOps, Action.requestOps] at hdeliver
    grind
  | exchangesTick =>
    simp only [exchangeOps, Action.exchangesTickOps, Action.atPresentOps] at hdeliver
    grind
  | keepaliveTick =>
    simp only [exchangeOps, Action.keepaliveTickOps, Action.atPresentOps, Action.pingOps]
      at hdeliver
    grind
  | unobserve token => cases List.mem_singleton.1 hdeliver
  | dispose => cases List.mem_singleton.1 hdeliver
  | _ => cases hdeliver

/-- A session begins with no exchange, and its run is one of the exchanges. -/
theorem exchanges_run {config : Config} {w w' : ω} {s : Session κ}
    (hcreate : create h config w = (.ok s, w')) (ops : List (Operation κ)) :
    ∃ lastId, s.endpoint.exchanges = .new config lastId ∧
      (run h ⟨s, w', []⟩ ops).exchanges =
        s.endpoint.exchanges.after (trace h ⟨s, w', []⟩ ops) := by
  obtain ⟨-, -, lastId, hendpoint⟩ := create_ok (h.keeps_const ()) hcreate
  obtain ⟨_, -, hrun⟩ := run_moves h ⟨s, w', []⟩ ops
  exact ⟨lastId, congrArg Endpoint.exchanges hendpoint, hrun.eq_after⟩

theorem filed_run {config : Config} {w w' : ω} {s : Session κ}
    (hcreate : create h config w = (.ok s, w')) (ops : List (Operation κ)) :
    (run h ⟨s, w', []⟩ ops).exchanges.Filed := by
  obtain ⟨lastId, hnew, hrun⟩ := exchanges_run hcreate ops
  rw [hrun, hnew]
  exact (Exchanges.filed_new config lastId).after _

/-- **An answered request rests.** After any run of a session an operation hands on a response. If
the request that it ends is the only one with its token, then from now on no sweep sends the request
again or gives it up, until its id is used again, and the listener is not told of it.

If there is an observer for the token, the response reaches the observer, and the request by which
that was registered rests from now on only if it rested before or the response acknowledges it. -/
theorem answered_request_rests {config : Config} {w w' : ω} {s : Session κ}
    (hcreate : create h config w = (.ok s, w')) (past : List (Operation κ)) (op : Operation κ)
    (hdeliver : .deliver m ∈ exchangeOps h (run h ⟨s, w', []⟩ past) op) :
    let l := run h ⟨s, w', []⟩ past
    let l' := run h ⟨s, w', []⟩ (past ++ [op])
    (∀ id, Exchanges.Sole id m.token l.exchanges → Exchanges.Silent id l'.exchanges) ∧
    (∀ c id, l.exchanges.observers[m.token]? = some c →
      (Exchanges.Silent id l'.exchanges ↔
        Exchanges.Silent id l.exchanges ∨ m.type = .acknowledgement ∧ m.id = id)) ∧
    ∀ id later, Exchanges.Silent id l'.exchanges →
      Exchanges.Unscheduled id (trace h l' later) →
      Exchanges.Silent id (run h l' later).exchanges ∧
        (∀ e ∈ l'.exchanges.events (trace h l' later), e.id ≠ id) ∧
        ∀ c token, .abandoned c id token ∈ (run h l' later).history →
          .abandoned c id token ∈ l'.history := by
  intro l l'
  have hfiled : l.exchanges.Filed := filed_run hcreate past
  have hfiled' : l'.exchanges.Filed := filed_run hcreate (past ++ [op])
  have hexchanges : l'.exchanges = l.exchanges.after (Exchanges.responseOps m l.exchanges) := by
    obtain ⟨_, -, hperform⟩ := perform_moves h l op
    rw [← exchangeOps_of_deliver hdeliver, ← hperform.eq_after]
    exact congrArg Live.exchanges (run_append h ⟨s, w', []⟩ past [op])
  refine ⟨?_, ?_, ?_⟩
  · intro id hsole
    rw [Exchanges.silent_iff hfiled', hexchanges]
    exact Exchanges.retries_of_sole hsole
  · intro c id hobserver
    rw [Exchanges.silent_iff hfiled', Exchanges.silent_iff hfiled, hexchanges]
    exact Exchanges.retries_of_observed hobserver
  · intro id later hsilent hlater
    obtain ⟨es, hhistory, hmoves⟩ := run_moves h l' later
    obtain ⟨hafter, hevents⟩ := hsilent.after hfiled' hlater
    rw [← hmoves.eq_after] at hafter
    refine ⟨hafter, hevents, ?_⟩
    intro c token habandoned
    rw [hhistory] at habandoned
    rcases List.mem_append.1 habandoned with hnew | hold
    · exact absurd rfl (hevents _ (hmoves.accounts _ hnew))
    · exact hold

/-- A 2.05 with the token of the request, not confirmable. -/
def sampleResponse : Message where
  type := .nonConfirmable
  code := ⟨2, 5⟩
  id := 9
  token := sampleRequest.token

def sampleRun (ops : List (Operation Unit)) : Live Unit Nat :=
  run sampleHost ⟨sampleSession, 2000, []⟩ ops

/-- A request rests once it is answered; one that registered an observer does not. -/
theorem answered_request_rests_sample :
    let ask : List (Operation Unit) := [.sendRequest sampleRequest (some ())]
    let watch : List (Operation Unit) := [.observe sampleRequest ()]
    let arrival : Operation Unit := .receive [81, 69, 0, 9, 8]
    create sampleHost {} 1000 = (.ok sampleSession, 2000) ∧
      .deliver sampleResponse ∈ exchangeOps sampleHost (sampleRun ask) arrival ∧
      .deliver sampleResponse ∈ exchangeOps sampleHost (sampleRun watch) arrival ∧
      Exchanges.Sole 44945 sampleResponse.token (sampleRun ask).exchanges ∧
      (sampleRun watch).exchanges.observers[sampleResponse.token]? = some () ∧
      trace sampleHost (sampleRun (ask ++ [arrival])) [.tick] = [.sweep 4000] ∧
      ¬ Exchanges.Silent 44945 (sampleRun ask).exchanges ∧
      Exchanges.Silent 44945 (sampleRun (ask ++ [arrival])).exchanges ∧
      ¬ Exchanges.Silent 44945 (sampleRun (watch ++ [arrival])).exchanges ∧
      Exchanges.Silent 44945
        (run sampleHost (sampleRun (ask ++ [arrival])) [.tick]).exchanges := by
  intro ask watch arrival
  have hask : .deliver sampleResponse ∈ exchangeOps sampleHost (sampleRun ask) arrival := by
    decide +kernel
  have hwatch : .deliver sampleResponse ∈ exchangeOps sampleHost (sampleRun watch) arrival := by
    decide +kernel
  have hpending : (sampleRun ask).exchanges.pending.toList =
      [(44945, ⟨sampleResponse.token, 249000, some ()⟩)] := by decide +kernel
  have hsole : Exchanges.Sole 44945 sampleResponse.token (sampleRun ask).exchanges :=
    Exchanges.sole_of_toList hpending (by decide +kernel)
  have hobserver : (sampleRun watch).exchanges.observers[sampleResponse.token]? = some () := by
    decide +kernel
  have htrace : trace sampleHost (sampleRun (ask ++ [arrival])) [.tick] = [.sweep 4000] := by
    decide +kernel
  have hask_due : ¬ ∀ e ∈ ((sampleRun ask).exchanges.sweep 4000).1, e.id ≠ 44945 := by
    decide +kernel
  have hwatch_due : ¬ ∀ e ∈ ((sampleRun watch).exchanges.sweep 4000).1, e.id ≠ 44945 := by
    decide +kernel
  obtain ⟨hends, -, hlater⟩ := answered_request_rests sampleSession_created ask arrival hask
  obtain ⟨-, hreaches, -⟩ := answered_request_rests sampleSession_created watch arrival hwatch
  have hsilent : Exchanges.Silent 44945 (sampleRun (ask ++ [arrival])).exchanges :=
    hends 44945 hsole
  have hunscheduled : Exchanges.Unscheduled 44945
      (trace sampleHost (sampleRun (ask ++ [arrival])) [.tick]) := by
    rw [htrace]
    intro m now hop
    cases List.mem_singleton.1 hop
  refine ⟨sampleSession_created, hask, hwatch, hsole, hobserver, htrace,
    fun h => hask_due (h 4000), hsilent, ?_, (hlater 44945 [.tick] hsilent hunscheduled).1⟩
  intro htold
  rcases (hreaches () 44945 hobserver).1 htold with hrested | ⟨hack, -⟩
  · exact hwatch_due (hrested 4000)
  · cases hack

end Session
end Coap
