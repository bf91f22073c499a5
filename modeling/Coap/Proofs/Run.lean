import Coap.Proofs.Conduct
import Coap.Proofs.Replies

/-!
# Runs of a session

The operations of a session as data, a run as a list of them, and what each does to the exchanges,
in order: the session moves its exchanges in no other way, and what it tells a callback or a
listener comes of these moves. A statement about the exchanges over all runs of a session is
thereby one about their operations.
-/
namespace Coap

variable {κ ω α β : Type}

namespace Exchanges

variable {x x' x'' : Exchanges κ} {ops ops' : List (Operation κ)} {e : Effect κ}
  {es es' : List (Effect κ)}

theorem events_append (x : Exchanges κ) (ops ops' : List (Operation κ)) :
    x.events (ops ++ ops') = x.events ops ++ (x.after ops).events ops' := by
  induction ops generalizing x with
  | nil => rfl
  | cons op ops ih =>
    rw [List.cons_append, events, ih, ← List.append_assoc]
    rfl

theorem calls_append (x : Exchanges κ) (ops ops' : List (Operation κ)) :
    x.calls (ops ++ ops') = x.calls ops ++ (x.after ops).calls ops' := by
  induction ops generalizing x with
  | nil => rfl
  | cons op ops ih =>
    rw [List.cons_append, calls, ih, ← List.append_assoc]
    rfl

/-- What a callback or a listener is told comes of the operations. -/
def Accounts (x : Exchanges κ) (ops : List (Operation κ)) : Effect κ → Prop
  | .delivered c m => .deliver m ∈ ops ∧ c ∈ x.calls ops
  | .abandoned _ id token => .abandoned id token ∈ x.events ops
  | _ => True

theorem Accounts.append_right (h : x.Accounts ops e) : x.Accounts (ops ++ ops') e := by
  cases e with
  | delivered c m =>
    refine ⟨List.mem_append_left _ h.1, ?_⟩
    rw [calls_append]
    exact List.mem_append_left _ h.2
  | abandoned listener id token =>
    rw [Accounts, events_append]
    exact List.mem_append_left _ h
  | _ => trivial

theorem Accounts.append_left (h : (x.after ops).Accounts ops' e) :
    x.Accounts (ops ++ ops') e := by
  cases e with
  | delivered c m =>
    refine ⟨List.mem_append_right _ h.1, ?_⟩
    rw [calls_append]
    exact List.mem_append_right _ h.2
  | abandoned listener id token =>
    rw [Accounts, events_append]
    exact List.mem_append_right _ h
  | _ => trivial

theorem accounts_of_isAside (h : e.IsAside) : x.Accounts ops e := by
  cases e <;> trivial

theorem accounts_of_sends {p : Message → Prop} (h : e.IsAside ∨ e.Sends p) :
    x.Accounts ops e := by
  rcases h with h | ⟨_, _, _, _, rfl⟩
  · exact accounts_of_isAside h
  · trivial

/-- The operations lead from one state to another and account for the effects. -/
structure Moves (x : Exchanges κ) (ops : List (Operation κ)) (x' : Exchanges κ)
    (effects : List (Effect κ)) : Prop where
  eq_after : x' = x.after ops
  accounts : ∀ e ∈ effects, x.Accounts ops e

theorem Moves.append (h : x.Moves ops x' es) (h' : x'.Moves ops' x'' es') :
    x.Moves (ops ++ ops') x'' (es ++ es') := by
  obtain ⟨rfl, haccounts⟩ := h
  refine ⟨h'.eq_after.trans (after_append x ops ops').symm, ?_⟩
  intro e he
  rcases List.mem_append.1 he with he | he
  · exact (haccounts e he).append_right
  · exact (h'.accounts e he).append_left

theorem Moves.of_subset (h : x.Moves ops x' es) (hsub : ∀ e ∈ es', e ∈ es) :
    x.Moves ops x' es' :=
  ⟨h.eq_after, fun e he => h.accounts e (hsub e he)⟩

end Exchanges

/-! ## One message -/

namespace Endpoint

variable {app : Application ω} {now : Millis} {m : Message} {e : Endpoint κ} {w : ω}
  {method : Method}

/-- What handling a message does to the exchanges. -/
def exchangeOps (app : Application ω) (m : Message) (e : Endpoint κ) (w : ω) :
    List (Exchanges.Operation κ) :=
  match Handler.ofMessage m with
  | .ping => []
  | .reset => [.cancel m.id]
  | .response =>
    (if m.type = .acknowledgement ∧ e.exchanges.retries.contains m.id then [.acknowledge m.id]
      else []) ++ if m.kind = .response ∧ e.isDuplicate m = false then [.deliver m] else []
  | .request method =>
    match (app method m w).1 with
    | .error _ => []
    | .ok answer =>
      if m.type ≠ .confirmable ∧ suppressed m answer = false then [.allocate] else []

theorem acknowledged_moves (m : Message) (e : Endpoint κ) :
    e.exchanges.Moves (if m.type = .acknowledgement ∧ e.exchanges.retries.contains m.id then
      [.acknowledge m.id] else []) (e.acknowledged m).1.exchanges (e.acknowledged m).2 := by
  unfold acknowledged
  split
  · exact ⟨rfl, by simp [Exchanges.Accounts]⟩
  · exact ⟨rfl, List.forall_mem_nil _⟩

theorem deliver_moves (m : Message) (e : Endpoint κ) :
    e.exchanges.Moves [.deliver m] (e.deliver m).1.exchanges (e.deliver m).2 := by
  have hcalls : e.exchanges.calls [.deliver m] =
      ((e.exchanges.deliver m.token).bind (·.1)).toList := List.append_nil _
  have happly : e.exchanges.after [.deliver m] =
      (e.exchanges.deliver m.token).elim e.exchanges (·.2) := rfl
  unfold deliver
  cases hdeliver : e.exchanges.deliver m.token with
  | none =>
    rw [hdeliver] at happly
    exact ⟨happly.symm, by simp [Exchanges.Accounts]⟩
  | some found =>
    obtain ⟨callback, exchanges⟩ := found
    rw [hdeliver] at happly hcalls
    refine ⟨happly.symm, ?_⟩
    intro f hf
    obtain ⟨c, hc, rfl⟩ := List.mem_map.1 hf
    refine ⟨List.mem_singleton_self _, ?_⟩
    rw [hcalls]
    exact hc

theorem isDuplicate_acknowledged (m : Message) (e : Endpoint κ) :
    (e.acknowledged m).1.isDuplicate m = e.isDuplicate m := by
  rw [isDuplicate, isDuplicate, dedup_acknowledged]

theorem response_moves (h : Handler.ofMessage m = .response) :
    e.exchanges.Moves (e.exchangeOps app m w) (e.response now m w).endpoint.exchanges
      (e.response now m w).effects := by
  have hfirst := acknowledged_moves m e
  have hnoted : ∀ n : Notice, (e.acknowledged m).1.exchanges.Moves []
      (e.acknowledged m).1.exchanges [.noted n] :=
    fun n => ⟨rfl, by simp [Exchanges.Accounts]⟩
  simp only [exchangeOps, h]
  cases hkind : m.kind with
  | empty =>
    simp only [response, hkind, reduceCtorEq, false_and, if_false]
    have hrest : (e.acknowledged m).1.exchanges.Moves [] (e.acknowledged m).1.exchanges
        (if m.type = .acknowledgement then [] else [.noted (.ignored m)]) := by
      split
      · exact ⟨rfl, List.forall_mem_nil _⟩
      · exact hnoted _
    exact hfirst.append hrest
  | request =>
    simp only [response, hkind, reduceCtorEq, false_and, if_false]
    exact hfirst.append (hnoted _)
  | response =>
    simp only [response, hkind, isDuplicate_acknowledged, true_and]
    cases hduplicate : e.isDuplicate m with
    | true => exact hfirst.append (hnoted _)
    | false =>
      have hremembered := exchanges_remember (e.acknowledged m).1 m now
      have hdeliver := deliver_moves m ((e.acknowledged m).1.remember m now)
      rw [hremembered] at hdeliver
      exact hfirst.append hdeliver

theorem request_moves (hmethod : m.code.method? = some method) :
    e.exchanges.Moves (e.exchangeOps app m w)
      (e.request app now method m w).endpoint.exchanges (e.request app now method m w).effects := by
  refine ⟨?_, ?_⟩
  · simp only [exchangeOps, handler_of_method? hmethod]
    by_cases htype : m.type = .confirmable
    · rw [(request_cases e app now method w htype).1]
      simp only [htype, ne_eq, not_true_eq_false, false_and, if_false]
      split <;> rfl
    · rw [request_of_not_confirmable htype]
      cases happ : (app method m w).1 with
      | error reason => exact exchanges_forget e m
      | ok answer =>
        rw [exchanges_conclude_ok, reply, if_neg htype]
        cases hsuppressed : suppressed m answer <;> simp [htype, hsuppressed] <;> rfl
  · intro f hf
    rw [request] at hf
    split at hf
    · obtain rfl := List.mem_singleton.1 hf
      trivial
    · rcases conclude_effects hf with ⟨n, rfl⟩ | rfl <;> trivial

theorem handle_moves (app : Application ω) (now : Millis) (m : Message) (e : Endpoint κ) (w : ω) :
    e.exchanges.Moves (e.exchangeOps app m w) (e.handle app now m w).endpoint.exchanges
      (e.handle app now m w).effects := by
  cases hhandler : Handler.ofMessage m with
  | ping =>
    rw [handle, exchangeOps, hhandler]
    exact ⟨rfl, by simp [handleAs, ping, Exchanges.Accounts]⟩
  | reset =>
    rw [handle_reset hhandler, exchangeOps, hhandler]
    exact ⟨rfl, by simp [reset, Exchanges.Accounts]⟩
  | response =>
    rw [handle_response hhandler]
    exact response_moves hhandler
  | request method =>
    have hmethod := method?_of_handler hhandler
    rw [handle_request hmethod]
    exact request_moves hmethod

end Endpoint

namespace Session

abbrev Live.exchanges (l : Live κ ω) : Exchanges κ := l.session.endpoint.exchanges

/-- The operations lead the exchanges from one state to the other and account for the history. -/
def Live.Moves (l : Live κ ω) (ops : List (Exchanges.Operation κ)) (l' : Live κ ω) : Prop :=
  ∃ es, l'.history = es ++ l.history ∧ l.exchanges.Moves ops l'.exchanges es

section
variable {l l' l'' : Live κ ω} {ops ops' : List (Exchanges.Operation κ)} {v : ω → β}

/-- Nothing is told. -/
theorem Live.moves_of_history (hhistory : l'.history = l.history)
    (hexchanges : l'.exchanges = l.exchanges.after ops) : l.Moves ops l' :=
  ⟨[], hhistory, hexchanges, List.forall_mem_nil _⟩

theorem Live.Moves.append (h : l.Moves ops l') (h' : l'.Moves ops' l'') :
    l.Moves (ops ++ ops') l'' := by
  obtain ⟨es, hes, hmoves⟩ := h
  obtain ⟨es', hes', hmoves'⟩ := h'
  refine ⟨es' ++ es, ?_, (hmoves.append hmoves').of_subset ?_⟩
  · rw [hes', hes, List.append_assoc]
  · intro e he
    exact List.mem_append.2 (List.mem_append.1 he).symm

theorem Live.Moves.append_nil (h : l.Moves ops l') (h' : l'.Moves [] l'') : l.Moves ops l'' := by
  rw [← List.append_nil ops]
  exact h.append h'

theorem Live.Grows.moves {p : Effect κ → Prop} (hg : l.Grows v p l')
    (hexchanges : l'.exchanges = l.exchanges.after ops)
    (hp : ∀ e, p e → l.exchanges.Accounts ops e) : l.Moves ops l' := by
  obtain ⟨es, hes, hall⟩ := hg.history
  exact ⟨es, hes, hexchanges, fun e he => hp e (hall e he)⟩

theorem Live.Quiet.moves (hq : l.Quiet v l') : l.Moves [] l' := by
  exact hq.toGrows.moves (congrArg Endpoint.exchanges hq.endpoint)
    fun _ => Exchanges.accounts_of_isAside

end

namespace Action

variable {v : ω → β} {h : Host ω} {l l' : Live κ ω}

theorem ensures_of_eq {a : Action κ ω α} {r : Except Failure α}
    {Q : Except Failure α → Live κ ω → Prop} (ha : Ensures a l Q) (heq : a l = (r, l')) :
    Q r l' := by
  rw [Ensures, heq] at ha
  exact ha

/-! ## A datagram -/

/-- The part of `receive` that reads the datagram. -/
def decode (h : Host ω) (datagram : Bytes) : Action κ ω (Millis × Message) := do
  let now ← now h .receiving
  postponePing now
  match Message.read datagram with
  | .error cause =>
    note (.discarded datagram.length cause)
    throw ⟨.unreadable cause, .receiving⟩
  | .ok m =>
    note (.received m)
    return (now, m)

/-- The part of `receive` that comes before the message is handled. -/
def letIn (h : Host ω) (datagram : Bytes) : Action κ ω (Millis × Message) := do
  let (now, m) ← decode h datagram
  authorize h m
  return (now, m)

theorem receive_eq_letIn (datagram : Bytes) :
    receive (κ := κ) h datagram = (do
      let (now, m) ← letIn h datagram
      respond h now m) := by
  rw [receive_eq]
  simp only [letIn, decode, bind_assoc]
  cases Message.read datagram <;> rfl

theorem decode_quiet (hk : h.Keeps v) (datagram : Bytes) :
    Ensures (decode h datagram) l fun _ l' => l.Quiet v l' := by
  refine (now_quiet hk .receiving).bind ?_ fun _ _ hq => hq.2
  intro now l₁ hl₁
  refine (postponePing_quiet (v := v) now).bind_ok ?_
  intro l₂ hq₂
  have hq := hl₁.2.trans hq₂
  cases Message.read datagram with
  | error cause =>
    refine (note_quiet (v := v) _).bind_ok ?_
    exact fun _ hq₃ => hq.trans hq₃
  | ok m =>
    refine (note_quiet (v := v) _).bind_ok ?_
    exact fun _ hq₃ => hq.trans hq₃

theorem letIn_quiet (hk : h.Keeps v) (datagram : Bytes) :
    Ensures (letIn h datagram) l fun _ l' => l.Quiet v l' := by
  refine (decode_quiet hk datagram).bind ?_ fun _ _ hq => hq
  intro (now, m) l₁ hq₁
  refine (authorize_quiet hk m).bind ?_ fun _ _ hq => hq₁.trans hq
  exact fun _ _ hq => hq₁.trans hq

end Action

/-- A message that is let in, when, and the state in which it is handled. -/
structure Arrival (κ ω : Type) where
  now : Millis
  message : Message
  state : Live κ ω

/-- What handling the message does to the exchanges. -/
def Arrival.exchangeOps (h : Host ω) (a : Arrival κ ω) : List (Exchanges.Operation κ) :=
  a.state.session.endpoint.exchangeOps h.application a.message a.state.world

/-- The message of a datagram, if it is let in. -/
def arrivalOf? (h : Host ω) (datagram : Bytes) (l : Live κ ω) : Option (Arrival κ ω) :=
  match Action.letIn h datagram l with
  | (.ok (now, m), state) => some ⟨now, m, state⟩
  | (.error _, _) => none

namespace Action

variable {h : Host ω} {l l' : Live κ ω}

/-- What is let in is handled, and nothing else is. -/
theorem receive_cases (h : Host ω) (datagram : Bytes) (l : Live κ ω) :
    (arrivalOf? h datagram l = none ∧
        (receive h datagram l).2 = (letIn h datagram l).2) ∨
      ∃ a, arrivalOf? h datagram l = some a ∧ (letIn h datagram l).2 = a.state ∧
        receive h datagram l = respond h a.now a.message a.state := by
  rw [receive_eq_letIn, arrivalOf?]
  rcases hletIn : letIn h datagram l with ⟨f | ⟨now, m⟩, l₁⟩
  · rw [bind_of_error hletIn]
    exact .inl ⟨rfl, rfl⟩
  · rw [bind_of_ok hletIn]
    exact .inr ⟨⟨now, m, l₁⟩, rfl, rfl, rfl⟩

theorem respond_moves (h : Host ω) (now : Millis) (m : Message) (l : Live κ ω) :
    l.Moves (l.session.endpoint.exchangeOps h.application m l.world) (respond h now m l).2 := by
  obtain ⟨hg, hendpoint⟩ := respond_ensures (l := l) (h.keeps_const ()) now m
  have hmoves := l.session.endpoint.handle_moves h.application now m l.world
  have hafter : l.Moves (l.session.endpoint.exchangeOps h.application m l.world)
      (l.after (l.session.endpoint.handle h.application now m l.world)) :=
    ⟨_, rfl, hmoves.of_subset fun _ => List.mem_reverse.1⟩
  have hsent : Live.Moves _ [] (respond h now m l).2 :=
    hg.moves (congrArg Endpoint.exchanges hendpoint) fun _ => Exchanges.accounts_of_sends
  exact hafter.append_nil hsent

theorem receive_moves (h : Host ω) (datagram : Bytes) (l : Live κ ω) :
    l.Moves ((arrivalOf? h datagram l).elim [] (·.exchangeOps h)) (receive h datagram l).2 := by
  have hq := letIn_quiet (l := l) (h.keeps_const ()) datagram
  rcases receive_cases h datagram l with ⟨hnone, hreceive⟩ | ⟨a, ha, hletIn, hreceive⟩
  · rw [hnone, hreceive]
    exact hq.moves
  · rw [ha, hreceive]
    have hfirst := hq.moves
    rw [hletIn] at hfirst
    exact hfirst.append (respond_moves h a.now a.message a.state)

/-! ## A round of a poll -/

/-- The datagram that a round of a poll finds, and the state in which it is received. -/
def collected? (h : Host ω) (l : Live κ ω) : Option (Bytes × Live κ ω) :=
  match h.collect maxDatagramSize l.world with
  | (.ok (some datagram), world) => some (datagram, { l with world })
  | _ => none

/-- A failure is noted. -/
def passOver : Except Failure α × Live κ ω → Live κ ω
  | (.ok _, l) => l
  | (.error failure, l) => { l with history := .noted (.skipped failure) :: l.history }

theorem passOver_quiet {v : ω → β} (r : Except Failure α × Live κ ω) : r.2.Quiet v (passOver r) := by
  rcases r with ⟨failure | a, l⟩
  · exact ⟨.note _, rfl⟩
  · exact .refl

/-- A round ends the poll, or receives one datagram and leaves the rest to the next rounds. -/
theorem receiveReady_cases (h : Host ω) (l : Live κ ω) :
    (collected? h l = none ∧ ∀ limit count, (receiveReady h (limit + 1) count l).2 =
        { l with world := (h.collect maxDatagramSize l.world).2 }) ∨
      ∃ datagram world, collected? h l = some (datagram, { l with world }) ∧ ∀ limit count,
        (receiveReady h (limit + 1) count l).2 =
          (receiveReady h limit (count + 1)
            (passOver (receive h datagram { l with world }))).2 := by
  have hcall : call (κ := κ) (h.collect maxDatagramSize) l =
      (.ok (h.collect maxDatagramSize l.world).1,
        { l with world := (h.collect maxDatagramSize l.world).2 }) := rfl
  unfold collected?
  rcases hcollect : h.collect maxDatagramSize l.world with ⟨reason | _ | datagram, world⟩
  all_goals rw [hcollect] at hcall
  · refine .inl ⟨rfl, fun limit count => ?_⟩
    rw [receiveReady, bind_of_ok hcall]
    rfl
  · refine .inl ⟨rfl, fun limit count => ?_⟩
    rw [receiveReady, bind_of_ok hcall]
    rfl
  · refine .inr ⟨datagram, world, rfl, fun limit count => ?_⟩
    have houtcome : outcome (receive h datagram) { l with world } =
        (.ok (receive h datagram { l with world }).1,
          (receive h datagram { l with world }).2) := rfl
    rw [receiveReady, bind_of_ok hcall]
    simp only
    rw [bind_of_ok houtcome]
    rcases receive h datagram { l with world } with ⟨failure | reply, l₂⟩ <;> rfl

theorem collect_moves (h : Host ω) (l : Live κ ω) :
    l.Moves (((collected? h l).bind fun (datagram, l) => arrivalOf? h datagram l).elim []
      (·.exchangeOps h)) (receiveReady h 1 0 l).2 := by
  rcases receiveReady_cases h l with ⟨hnone, hends⟩ | ⟨datagram, world, hsome, hround⟩
  · rw [hnone, hends]
    exact Live.moves_of_history rfl rfl
  · rw [hsome, hround]
    have hpassed := passOver_quiet (v := fun _ => ()) (receive h datagram { l with world })
    exact (receive_moves h datagram { l with world }).append_nil hpassed.moves

/-! ## Upkeep -/

theorem accounts_of_acts {x : Exchanges κ} {now : Millis} {e : Effect κ}
    (h : Acts (x.sweep now).1 e) : x.Accounts [.sweep now] e := by
  rcases h with h | ⟨listener, id, token, h, rfl⟩ | h
  · exact Exchanges.accounts_of_isAside h
  · exact List.mem_append_left _ h
  · exact Exchanges.accounts_of_sends (.inr h)

theorem sweepExchanges_moves (h : Host ω) (now : Millis) (l : Live κ ω) :
    l.Moves [.sweep now] (sweepExchanges h now l).2 := by
  obtain ⟨hsession, hg⟩ := sweepExchanges_ensures (l := l) (h.keeps_const ()) now
  exact hg.moves (congrArg (·.endpoint.exchanges) hsession) fun _ => accounts_of_acts

theorem sweep_moves (h : Host ω) (now : Millis) (l : Live κ ω) :
    l.Moves [.sweep now] (sweep h now l).2 := by
  obtain ⟨hendpoint, hg⟩ := sweep_ensures (l := l) (h.keeps_const ()) now
  exact hg.moves (congrArg Endpoint.exchanges hendpoint) fun _ => accounts_of_acts

def pingOps (now : Millis) (s : Session κ) : List (Exchanges.Operation κ) :=
  if s.config.keepalive.isSome ∧ s.pingDue ≤ now then
    [.allocate, .schedule (pingMessage s.endpoint.exchanges.allocate.1) now]
  else []

theorem keepalive_moves (h : Host ω) (now : Millis) (l : Live κ ω) :
    l.Moves (pingOps now l.session) (keepalive h now l).2 := by
  show Ensures (keepalive h now) l fun _ l' => l.Moves (pingOps now l.session) l'
  have hnothing : l.Moves [] l := Live.moves_of_history rfl rfl
  simp only [keepalive, pingOps, ensures_bind, ensures_session]
  cases hkeep : l.session.config.keepalive with
  | none => exact hnothing
  | some interval =>
    simp only [Option.isSome_some, true_and, ensures_ite]
    split
    · apply (ping_ensures (h.keeps_const ()) interval now).imp
      intro _ l' hl'
      obtain ⟨hg, hendpoint⟩ := hl'
      exact hg.moves (congrArg Endpoint.exchanges hendpoint) fun _ => Exchanges.accounts_of_sends
    · exact hnothing

/-- A sweep that failed is not followed by a ping. -/
def tickOps (h : Host ω) (l : Live κ ω) : List (Exchanges.Operation κ) :=
  match now h .sweeping l with
  | (.error _, _) => []
  | (.ok now, l) =>
    .sweep now :: match sweep h now l with
      | (.error _, _) => []
      | (.ok _, l) => pingOps now l.session

theorem tick_moves (h : Host ω) (l : Live κ ω) : l.Moves (tickOps h l) (tick h l).2 := by
  have hnow := now_quiet (l := l) (h.keeps_const ()) .sweeping
  rw [tick_eq, tickOps]
  rcases hclock : now h .sweeping l with ⟨f | now, l₁⟩
  · rw [bind_of_error hclock]
    exact (ensures_of_eq hnow hclock).2.moves
  · rw [bind_of_ok hclock]
    have hswept := (ensures_of_eq hnow hclock).2.moves.append (sweep_moves h now l₁)
    dsimp only
    rcases hsweep : sweep h now l₁ with ⟨f | _, l₂⟩
    · rw [hsweep] at hswept
      rw [bind_of_error hsweep]
      exact hswept
    · rw [hsweep] at hswept
      rw [bind_of_ok hsweep]
      exact hswept.append (keepalive_moves h now l₂)

/-- What background work does to the exchanges. -/
def atPresentOps (h : Host ω) (ops : Millis → Session κ → List (Exchanges.Operation κ))
    (l : Live κ ω) : List (Exchanges.Operation κ) :=
  match now h .sweeping l with
  | (.error _, _) => []
  | (.ok now, l) => ops now l.session

/-- A timer that is not armed does nothing. -/
def exchangesTickOps (h : Host ω) (l : Live κ ω) : List (Exchanges.Operation κ) :=
  match l.session.timers with
  | some { exchanges := { armed := true, .. }, .. } =>
    atPresentOps h (fun now _ => [.sweep now]) l
  | _ => []

def keepaliveTickOps (h : Host ω) (l : Live κ ω) : List (Exchanges.Operation κ) :=
  match l.session.timers with
  | some { keepalive := some { armed := true, .. }, .. } => atPresentOps h pingOps l
  | _ => []

theorem noted_moves {a : Action κ ω Unit} {ops : List (Exchanges.Operation κ)}
    (ha : l.Moves ops (a l).2) : l.Moves ops (noted a l).2 := by
  show Ensures (noted a) l fun _ l' => l.Moves ops l'
  simp only [noted, ensures_bind, ensures_outcome]
  rcases hrun : a l with ⟨f | _, l₁⟩ <;> simp only [Ensures, hrun] at ha ⊢
  · have hnoted := note_quiet (l := l₁) (v := fun _ => ()) (.background f)
    exact ha.append_nil hnoted.2.moves
  · exact ha

theorem atPresent_moves {work : Millis → Action κ ω Unit}
    (ops : Millis → Session κ → List (Exchanges.Operation κ))
    (hwork : ∀ now (l : Live κ ω), l.Moves (ops now l.session) (work now l).2) :
    l.Moves (atPresentOps h ops l) (atPresent h work l).2 := by
  apply noted_moves
  have hnow := now_quiet (l := l) (h.keeps_const ()) .sweeping
  rw [atPresentOps]
  rcases hclock : now h .sweeping l with ⟨f | now, l₁⟩
  · rw [bind_of_error hclock]
    exact (ensures_of_eq hnow hclock).2.moves
  · rw [bind_of_ok hclock]
    exact (ensures_of_eq hnow hclock).2.moves.append (hwork now l₁)

theorem sweepDedup_moves (now : Millis) (l : Live κ ω) : l.Moves [] (sweepDedup now l).2 := by
  obtain ⟨-, hsession, hg⟩ := sweepDedup_ensures (l := l) (v := fun _ => ()) now
  exact hg.moves (congrArg (·.endpoint.exchanges) hsession)
    fun _ => Exchanges.accounts_of_isAside

/-! ## Requests -/

/-- What a request that is sent at a time does to the exchanges. One that does not go out is
cancelled. -/
def requestOps (m : Message) (delivery : Delivery κ) (now : Millis) (x : Exchanges κ)
    (result : Except Failure (MessageId × Token)) : List (Exchanges.Operation κ) :=
  .register m.token delivery now ::
    match (x.register m.token delivery now).1 with
    | none => []
    | some id =>
      .schedule { m with id } now ::
        match result with
        | .error _ => [.cancel id]
        | .ok _ => []

def sendOps (h : Host ω) (m : Message) (delivery : Delivery κ) (l : Live κ ω) :
    List (Exchanges.Operation κ) :=
  match (h.now l.world).1 with
  | .error _ => []
  | .ok now =>
    requestOps { m with token := l.session.tokenFor m } delivery now l.exchanges
      (sendCorrelated h m delivery l).1

/-- A request that has its id. -/
theorem transmit_moves (h : Host ω) (m : Message) (now : Millis) (l : Live κ ω) :
    Ensures (transmit h m now) l fun r l' => l.Moves
      (.schedule m now ::
        match r with
        | .error _ => [.cancel m.id]
        | .ok _ => []) l' := by
  apply (transmit_ensures (h.keeps_const ()) m now).imp
  intro r l' hl'
  rcases hl' with ⟨⟨f, rfl⟩, hg, hendpoint⟩ | ⟨rfl, hg, hendpoint⟩
  · exact hg.moves (congrArg Endpoint.exchanges hendpoint) fun _ => Exchanges.accounts_of_isAside
  · exact hg.moves (congrArg Endpoint.exchanges hendpoint) fun _ => Exchanges.accounts_of_sends

theorem sendCorrelated_moves (h : Host ω) (m : Message) (delivery : Delivery κ) (l : Live κ ω) :
    l.Moves (sendOps h m delivery l) (sendCorrelated h m delivery l).2 := by
  -- Whether the request is cancelled is told by the result, so this is one statement on both.
  suffices Ensures (sendCorrelated h m delivery) l fun r l' => l.Moves
      (match (h.now l.world).1 with
        | .error _ => []
        | .ok now =>
          requestOps { m with token := l.session.tokenFor m } delivery now l.exchanges r) l' from
    this
  rw [sendCorrelated_eq]
  refine (ensureToken_quiet (v := id) m).bind_ok ?_
  intro l₁ hq
  have hworld : l₁.world = l.world := hq.view
  generalize ({ m with token := l.session.tokenFor m } : Message) = request
  simp only [ensures_bind, ensures_now, hworld]
  have hstart : l.Moves [] { l₁ with world := (h.now l.world).2 } :=
    hq.moves.append (Live.Quiet.moves ⟨.of_eq (v := fun _ => ()) rfl rfl rfl, rfl⟩)
  have hexchanges : l₁.exchanges = l.exchanges := congrArg Endpoint.exchanges hq.endpoint
  cases (h.now l.world).1 with
  | error cause => exact hstart
  | ok now =>
    simp only [Except.mapError, ensures_register, requestOps]
    rw [← hexchanges]
    have hregistered : l.Moves [.register request.token delivery now]
        { session := l₁.session.setExchanges
            (l₁.exchanges.register request.token delivery now).2
          world := (h.now l.world).2
          history := l₁.history } :=
      hstart.append (Live.moves_of_history rfl rfl)
    cases (l₁.exchanges.register request.token delivery now).1 with
    | none => exact hregistered
    | some id =>
      apply (transmit_moves h { request with id } now _).imp
      exact fun _ _ hsent => hregistered.append hsent

theorem return_eq (a : Action κ ω α) (f : α → β) (l : Live κ ω) :
    ((do return f (← a) : Action κ ω β) l).2 = (a l).2 := by
  rcases ha : a l with ⟨e | x, l'⟩
  · exact congrArg Prod.snd (bind_of_error ha)
  · exact congrArg Prod.snd (bind_of_ok ha)

/-- What is made of the result does not change how an action fails. -/
theorem error_of_return {a : Action κ ω α} {f : α → β} {e : Failure}
    (he : ((do return f (← a) : Action κ ω β) l).1 = .error e) : (a l).1 = .error e := by
  rcases ha : a l with ⟨e' | x, l'⟩
  · rw [bind_of_error ha] at he
    cases he
    rfl
  · rw [bind_of_ok ha] at he
    cases he

theorem refreshKeepalive_moves (h : Host ω) (l : Live κ ω) :
    l.Moves [] (refreshKeepalive h l).2 := by
  have hquiet : Ensures (refreshKeepalive h) l fun _ l' => l.Quiet (fun _ => ()) l' := by
    refine (now_quiet (h.keeps_const ()) .keepingAlive).bind ?_ fun _ _ hq => hq.2
    intro now l₁ hl₁
    apply (postponePing_quiet now).imp
    exact fun _ _ hq => hl₁.2.trans hq.2
  exact hquiet.moves

theorem start_moves (l : Live κ ω) : l.Moves [] (start l).2 := by
  have hquiet : Ensures start l fun _ l' => l.Quiet (fun _ => ()) l' := by
    rw [start, ensures_bind, ensures_modifySession]
    apply (armTimers_quiet (v := fun _ => ())).imp
    exact fun _ _ hq => ⟨⟨hq.2.config, rfl, hq.2.history⟩, hq.2.endpoint⟩
  exact hquiet.moves

theorem dispose_moves (h : Host ω) (l : Live κ ω) : l.Moves [.clear] (dispose h l).2 := by
  show Ensures (dispose h) l fun _ l' => l.Moves [.clear] l'
  simp only [dispose, ensures_bind, ensures_modifySession, ensures_call]
  cases (h.closeTransport l.world).1 with
  | error reason =>
    exact ⟨[.noted (.closeFailed reason)], rfl, rfl, by simp [Exchanges.Accounts]⟩
  | ok _ => exact Live.moves_of_history rfl rfl

/-- After its work a timer may be disarmed. -/
theorem disarm_moves {a : Action κ ω Unit} {f : Session κ → Session κ}
    {ops : List (Exchanges.Operation κ)} (ha : l.Moves ops (a l).2)
    (hf : ∀ s, (f s).endpoint = s.endpoint) :
    l.Moves ops ((do a; modifySession f : Action κ ω Unit) l).2 := by
  rcases hrun : a l with ⟨e | _, l₁⟩ <;> rw [hrun] at ha
  · rw [bind_of_error hrun]
    exact ha
  · rw [bind_of_ok hrun]
    exact ha.append_nil (Live.moves_of_history rfl (congrArg Endpoint.exchanges (hf l₁.session)))

theorem dedupTick_moves (h : Host ω) (l : Live κ ω) : l.Moves [] (dedupTick h l).2 := by
  show Ensures (dedupTick h) l fun _ l' => l.Moves [] l'
  simp only [dedupTick, ensures_bind, ensures_session]
  split
  · have hwork := atPresent_moves (h := h) (l := l) (fun _ _ => []) sweepDedup_moves
    have hnone : atPresentOps h (fun _ _ => []) l = [] := by
      unfold atPresentOps
      split <;> rfl
    rw [hnone] at hwork
    apply disarm_moves hwork
    intro s
    split <;> rfl
  · exact Live.moves_of_history rfl rfl

theorem exchangesTick_moves (h : Host ω) (l : Live κ ω) :
    l.Moves (exchangesTickOps h l) (exchangesTick h l).2 := by
  show Ensures (exchangesTick h) l fun _ l' => l.Moves (exchangesTickOps h l) l'
  simp only [exchangesTick, exchangesTickOps, ensures_bind, ensures_session]
  rcases l.session.timers with _ | ⟨_, ⟨_ | _, _⟩, _⟩
  · exact Live.moves_of_history rfl rfl
  · exact Live.moves_of_history rfl rfl
  · apply disarm_moves (atPresent_moves (fun now _ => [.sweep now]) (sweepExchanges_moves h))
    intro s
    split <;> rfl

theorem keepaliveTick_moves (h : Host ω) (l : Live κ ω) :
    l.Moves (keepaliveTickOps h l) (keepaliveTick h l).2 := by
  show Ensures (keepaliveTick h) l fun _ l' => l.Moves (keepaliveTickOps h l) l'
  simp only [keepaliveTick, keepaliveTickOps, ensures_bind, ensures_session]
  rcases l.session.timers with _ | ⟨_, _, _ | ⟨_ | _, _⟩⟩
  · exact Live.moves_of_history rfl rfl
  · exact Live.moves_of_history rfl rfl
  · exact Live.moves_of_history rfl rfl
  · exact atPresent_moves pingOps (keepalive_moves h)

end Action

/-! ## Operations -/

/-- What can happen to a session. -/
inductive Operation (κ : Type) where
  | receive (datagram : Bytes)
  /-- One round of a poll. -/
  | collect
  | tick
  | sendRequest (m : Message) (callback : Option κ)
  | observe (m : Message) (callback : κ)
  | unobserve (token : Token)
  | ensureAuthentication (m : Message) (force : Bool)
  | refreshKeepalive
  | setListener (listener : κ)
  | start
  | dedupTick
  | exchangesTick
  | keepaliveTick
  | dispose

open Session.Action

def perform (h : Host ω) (l : Live κ ω) : Operation κ → Live κ ω
  | .receive datagram => (Action.receive h datagram l).2
  | .collect => (receiveReady h 1 0 l).2
  | .tick => (Action.tick h l).2
  | .sendRequest m callback => (Action.sendRequest h m callback l).2
  | .observe m callback => (Action.observe h m callback l).2
  | .unobserve token => (Action.unobserve token l).2
  | .ensureAuthentication m force => (Action.ensureAuthentication h m force l).2
  | .refreshKeepalive => (Action.refreshKeepalive h l).2
  | .setListener listener => (Action.setListener listener l).2
  | .start => (Action.start l).2
  | .dedupTick => (Action.dedupTick h l).2
  | .exchangesTick => (Action.exchangesTick h l).2
  | .keepaliveTick => (Action.keepaliveTick h l).2
  | .dispose => (Action.dispose h l).2

def run (h : Host ω) (l : Live κ ω) (ops : List (Operation κ)) : Live κ ω :=
  ops.foldl (perform h) l

theorem run_append (h : Host ω) (l : Live κ ω) (ops ops' : List (Operation κ)) :
    run h l (ops ++ ops') = run h (run h l ops) ops' :=
  List.foldl_append

theorem receiveReady_eq_run (h : Host ω) (limit count : Nat) (l : Live κ ω) :
    ∃ rounds, (receiveReady h limit count l).2 = run h l (List.replicate rounds .collect) := by
  induction limit generalizing count l with
  | zero => exact ⟨0, rfl⟩
  | succ limit ih =>
    rcases receiveReady_cases h l with ⟨-, hends⟩ | ⟨datagram, world, -, hround⟩
    · exact ⟨1, (hends limit count).trans (hends 0 0).symm⟩
    · obtain ⟨rounds, hrounds⟩ := ih (count + 1) (passOver (receive h datagram { l with world }))
      refine ⟨rounds + 1, ?_⟩
      rw [hround, hrounds, List.replicate_succ]
      show _ = run h (perform h l .collect) _
      rw [perform, hround 0 0]
      rfl

/-- A poll is a run of rounds. -/
theorem poll_eq_run (h : Host ω) (l : Live κ ω) :
    ∃ rounds, (poll h l).2 = run h l (List.replicate rounds .collect) :=
  receiveReady_eq_run h (h.backlog l.world + 1) 0 l

/-- The message that comes in by an operation. -/
def arrival? (h : Host ω) (l : Live κ ω) : Operation κ → Option (Arrival κ ω)
  | .receive datagram => arrivalOf? h datagram l
  | .collect => (collected? h l).bind fun (datagram, l) => arrivalOf? h datagram l
  | _ => none

/-- What an operation does to the exchanges, in order. -/
def exchangeOps (h : Host ω) (l : Live κ ω) : Operation κ → List (Exchanges.Operation κ)
  | .receive datagram => (arrival? h l (.receive datagram)).elim [] (·.exchangeOps h)
  | .collect => (arrival? h l .collect).elim [] (·.exchangeOps h)
  | .tick => tickOps h l
  | .sendRequest m callback => sendOps h m (.once callback) l
  | .observe m callback => sendOps h (m.setObserve true) (.observer callback) l
  | .unobserve token => [.unobserve token]
  | .exchangesTick => exchangesTickOps h l
  | .keepaliveTick => keepaliveTickOps h l
  | .dispose => [.clear]
  | .ensureAuthentication _ _ | .refreshKeepalive | .setListener _ | .start | .dedupTick => []

/-- What a run does to the exchanges, in order. -/
def trace (h : Host ω) (l : Live κ ω) : List (Operation κ) → List (Exchanges.Operation κ)
  | [] => []
  | op :: ops => exchangeOps h l op ++ trace h (perform h l op) ops

theorem perform_moves (h : Host ω) (l : Live κ ω) (op : Operation κ) :
    l.Moves (exchangeOps h l op) (perform h l op) := by
  cases op with
  | receive datagram => exact receive_moves h datagram l
  | collect => exact collect_moves h l
  | tick => exact tick_moves h l
  | sendRequest m callback =>
    rw [perform, Action.sendRequest, return_eq]
    exact sendCorrelated_moves h m _ l
  | observe m callback =>
    rw [perform, Action.observe, return_eq]
    exact sendCorrelated_moves h _ _ l
  | unobserve token => exact Live.moves_of_history rfl rfl
  | ensureAuthentication m force =>
    exact (ensureAuthentication_quiet (l := l) (h.keeps_const ()) m force).moves
  | refreshKeepalive => exact refreshKeepalive_moves h l
  | setListener listener => exact Live.moves_of_history rfl rfl
  | start => exact start_moves l
  | dedupTick => exact dedupTick_moves h l
  | exchangesTick => exact exchangesTick_moves h l
  | keepaliveTick => exact keepaliveTick_moves h l
  | dispose => exact dispose_moves h l

theorem run_moves (h : Host ω) (l : Live κ ω) (ops : List (Operation κ)) :
    l.Moves (trace h l ops) (run h l ops) := by
  induction ops generalizing l with
  | nil => exact Live.moves_of_history rfl rfl
  | cons op ops ih => exact (perform_moves h l op).append (ih (perform h l op))

/-- A second passes each time the clock is read, requests are answered with 2.05, and one
credential opens the door. -/
def sampleHost : Host Nat where
  tickUnit := .millisecond
  readClock w := (some w, w + 1000)
  openTransport w := (.ok (), w)
  closeTransport w := (.ok (), w)
  transmit _ w := (.ok (), w)
  collect _ w := (.ok none, w)
  backlog _ := 0
  application _ _ w := (.ok { code := ⟨2, 5⟩ }, w)
  credentialsRequired := true
  authenticate tokenType token w := (tokenType == "jwt" && token == "letmein", w)

/-- The transport takes nothing. -/
def deafHost : Host Nat := { sampleHost with transmit := fun _ w => (.error "Broken", w) }

def sampleSession : Session Unit where
  config := {}
  endpoint := .new {} (TokenGenerator.new {} 1000).nextId.1
  tokens := (TokenGenerator.new {} 1000).nextId.2
  pingDue := Millis.add 1000 0

theorem sampleSession_created : create sampleHost {} 1000 = (.ok sampleSession, 2000) := by
  have hnow : sampleHost.now 1000 = (.ok 1000, 2000) := by decide +kernel
  exact create_of_now hnow rfl

def sampleRequest : Message := { code := ⟨0, 1⟩, token := ⟨[8], by decide⟩ }

end Session
end Coap
