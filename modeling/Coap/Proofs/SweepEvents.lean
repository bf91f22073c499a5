import Coap.Proofs.Run

/-!
# The events of a sweep

A sweep moves all records on at once, and then its events are acted on in the order of their ids,
up to the first message that is refused. Nothing is done about those after it: the messages are not
sent, and the listener is not told of what was given up, although record and request are gone.
-/
namespace Coap

open Exchanges (Event)

variable {κ ω : Type}

/-- The event that is announced. -/
def Effect.event? : Effect κ → Option Event
  | .noted (.retrying m) => some (.retry m)
  | .noted (.abandoning id token) => some (.abandoned id token)
  | _ => none

/-- What a listener is told. -/
def Effect.told? : Effect κ → Option (κ × MessageId × Token)
  | .abandoned listener id token => some (listener, id, token)
  | _ => none

def Effect.datagram? : Effect κ → Option Bytes
  | .sent datagram => some datagram
  | _ => none

namespace Exchanges.Event

/-- What the listener is to be told of the event. -/
def told? (listener : Option κ) : Event → Option (κ × MessageId × Token)
  | .retry _ => none
  | .abandoned id token => listener.map fun c => (c, id, token)

/-- What the transport is to be handed. -/
def datagram? : Event → Option Bytes
  | .retry m => m.write.toOption
  | .abandoned _ _ => none

end Exchanges.Event

/-- The transport takes the messages of all these events, one after the other. -/
inductive Host.TakesAll (h : Host ω) : List Event → ω → ω → Prop
  | nil (w : ω) : h.TakesAll [] w w
  | retry {m : Message} {b : Bytes} {events : List Event} {w w₁ w₂ : ω}
    (hfirst : h.Takes m w b w₁) (hrest : h.TakesAll events w₁ w₂) :
    h.TakesAll (.retry m :: events) w w₂
  | abandoned {id : MessageId} {token : Token} {events : List Event} {w w' : ω}
    (hrest : h.TakesAll events w w') : h.TakesAll (.abandoned id token :: events) w w'

/-- What is taken of the events, and what is left: nothing, or a message that is refused and all
that comes after it. -/
inductive Host.Course (h : Host ω) (taken : List Event) (w : ω) :
    List Event → Except Failure Unit → ω → Prop
  | whole {w' : ω} (htaken : h.TakesAll taken w w') : h.Course taken w [] (.ok ()) w'
  | cut {m : Message} {cause : Cause} {w₁ w₂ : ω} (htaken : h.TakesAll taken w w₁)
    (hrefused : h.Refuses m w₁ cause w₂) (lost : List Event) :
    h.Course taken w (.retry m :: lost) (.error ⟨cause, .sending m.id m.token⟩) w₂

section
variable {h : Host ω} {taken left : List Event} {w w₁ w₂ : ω} {r : Except Failure Unit}

theorem Host.Course.retry {m : Message} {b : Bytes} (hfirst : h.Takes m w b w₁)
    (hrest : h.Course taken w₁ left r w₂) : h.Course (.retry m :: taken) w left r w₂ := by
  cases hrest with
  | whole htaken => exact .whole (.retry hfirst htaken)
  | cut htaken hrefused lost => exact .cut (.retry hfirst htaken) hrefused lost

theorem Host.Course.abandoned (id : MessageId) (token : Token)
    (hrest : h.Course taken w left r w₂) :
    h.Course (.abandoned id token :: taken) w left r w₂ := by
  cases hrest with
  | whole htaken => exact .whole (.abandoned htaken)
  | cut htaken hrefused lost => exact .cut (.abandoned htaken) hrefused lost

theorem Host.Course.takesAll (hcourse : h.Course taken w left r w₂) :
    ∃ w', h.TakesAll taken w w' := by
  cases hcourse with
  | whole htaken => exact ⟨_, htaken⟩
  | cut htaken => exact ⟨_, htaken⟩

theorem Host.Course.left_eq_nil (hcourse : h.Course taken w left (.ok ()) w₂) : left = [] := by
  cases hcourse
  rfl

end

namespace Exchanges

/-- What is given up takes its record and its request along. -/
theorem ended_of_abandoned {x : Exchanges κ} {now : Millis} {id : MessageId} {token : Token}
    (h : .abandoned id token ∈ (x.sweep now).1) :
    (x.sweep now).2.retries[id]? = none ∧ (x.sweep now).2.pending[id]? = none := by
  refine ⟨?_, ?_⟩
  · have hverdict := abandoned_mem_sweep_iff.1 ⟨token, h⟩
    obtain ⟨r, hr, hgivenUp⟩ := Option.map_eq_some_iff.1 hverdict
    rw [retries_sweep, hr, Option.bind_some, hgivenUp]
    rfl
  · rw [Option.eq_none_iff_forall_ne_some]
    intro p hp
    exact (pending_sweep_iff.1 hp).2.2 token h

end Exchanges

namespace Session

/-- The effects, in order, of acting on events: each that is taken is announced and done, once, and
the first that is left is announced. -/
structure Tells (listener : Option κ) (taken left : List Event) (effects : List (Effect κ)) :
    Prop where
  announced : effects.filterMap Effect.event? = taken ++ left.take 1
  told : effects.filterMap Effect.told? = taken.filterMap (Event.told? listener)
  sent : taken.filterMap Event.datagram? <+: effects.filterMap Effect.datagram?

/-- The effect comes of no event of a sweep. -/
structure IsApart (e : Effect κ) : Prop where
  event : e.event? = none
  told : e.told? = none

variable {h : Host ω} {l l' : Live κ ω} {listener : Option κ} {taken left : List Event}
  {effects es : List (Effect κ)} {now : Millis}

theorem Tells.retry {m : Message} {b : Bytes} (hwrite : m.write = .ok b)
    (hrest : Tells listener taken left effects) :
    Tells listener (.retry m :: taken) left
      (.noted (.retrying m) :: .sent b :: .noted (.sent m) :: effects) where
  announced := congrArg (Event.retry m :: ·) hrest.announced
  told := hrest.told
  sent := by
    have hdatagram : (Event.retry m).datagram? = some b := by rw [Event.datagram?, hwrite]; rfl
    rw [List.filterMap_cons_some hdatagram]
    exact List.prefix_cons_inj b |>.2 hrest.sent

theorem Tells.abandoned (id : MessageId) (token : Token)
    (hrest : Tells listener taken left effects) :
    Tells listener (.abandoned id token :: taken) left
      (.noted (.abandoning id token) ::
        listener.toList.map (fun c => .abandoned c id token) ++ effects) := by
  cases listener with
  | none => exact ⟨congrArg _ hrest.announced, hrest.told, hrest.sent⟩
  | some c => exact ⟨congrArg _ hrest.announced, congrArg _ hrest.told, hrest.sent⟩

theorem Tells.append_right (htells : Tells listener taken left effects)
    (hes : ∀ e ∈ es, IsApart e) : Tells listener taken left (effects ++ es) where
  announced := by
    rw [List.filterMap_append, List.filterMap_eq_nil_iff.2 fun e he => (hes e he).event,
      List.append_nil]
    exact htells.announced
  told := by
    rw [List.filterMap_append, List.filterMap_eq_nil_iff.2 fun e he => (hes e he).told,
      List.append_nil]
    exact htells.told
  sent := by
    rw [List.filterMap_append]
    exact htells.sent.trans (List.prefix_append _ _)

theorem Tells.forgotten (count : Nat) (htells : Tells listener taken left effects) :
    Tells listener taken left (.noted (.idsForgotten count) :: effects) :=
  ⟨htells.announced, htells.told, htells.sent⟩

namespace Action

theorem actOn_retry (h : Host ω) (m : Message) (l : Live κ ω) :
    (∃ b w, h.Takes m l.world b w ∧ actOn h (.retry m) l =
        (.ok (), { l with
          world := w
          history := .noted (.sent m) :: .sent b :: .noted (.retrying m) :: l.history })) ∨
      ∃ cause w, h.Refuses m l.world cause w ∧ actOn h (.retry m) l =
        (.error ⟨cause, .sending m.id m.token⟩,
          { l with world := w, history := .noted (.retrying m) :: l.history }) := by
  let announced : Live κ ω := { l with history := .noted (.retrying m) :: l.history }
  have hnote : note (.retrying m) l = (.ok (), announced) := rfl
  rw [actOn, bind_of_ok hnote]
  exact send_cases h m (.sending m.id m.token) announced

/-- The listener is always told. -/
theorem actOn_abandoned (h : Host ω) (id : MessageId) (token : Token) (l : Live κ ω) :
    actOn h (.abandoned id token) l = (.ok (), { l with
      history := (.noted (.abandoning id token) ::
        l.session.listener.toList.map fun c => .abandoned c id token).reverse ++ l.history }) := by
  obtain ⟨⟨_, _, _, _, listener, _, _⟩, _, _⟩ := l
  cases listener <;> rfl

/-- **Events are acted on in order, up to the first that is refused.** -/
theorem forM_actOn_course (h : Host ω) (events : List Event) (l : Live κ ω) :
    ∃ taken left effects, events = taken ++ left ∧
      Tells l.session.listener taken left effects ∧
      Ensures (events.forM (actOn h)) l fun r l' =>
        h.Course taken l.world left r l'.world ∧ l'.session = l.session ∧
          l'.history = effects.reverse ++ l.history := by
  induction events generalizing l with
  | nil => exact ⟨[], [], [], rfl, ⟨rfl, rfl, List.nil_prefix⟩, .whole (.nil _), rfl, rfl⟩
  | cons event events ih =>
    have hforM : (event :: events).forM (actOn (κ := κ) h) = (do
        actOn h event
        events.forM (actOn h)) := rfl
    cases event with
    | retry m =>
      rcases actOn_retry h m l with ⟨b, w, htakes, hact⟩ | ⟨cause, w, hrefuses, hact⟩
      · obtain ⟨taken, left, effects, hevents, htells, hcourse, hsession, hhistory⟩ := ih
          ⟨l.session, w, .noted (.sent m) :: .sent b :: .noted (.retrying m) :: l.history⟩
        refine ⟨_, _, _, congrArg _ hevents, htells.retry htakes.write, ?_⟩
        rw [Ensures, hforM, bind_of_ok hact]
        refine ⟨hcourse.retry htakes, hsession, ?_⟩
        rw [hhistory]
        simp
      · refine ⟨[], _, [.noted (.retrying m)], rfl, ⟨rfl, rfl, List.nil_prefix⟩, ?_⟩
        rw [Ensures, hforM, bind_of_error hact]
        exact ⟨.cut (.nil _) hrefuses events, rfl, rfl⟩
    | abandoned id token =>
      have hact := actOn_abandoned h id token l
      obtain ⟨taken, left, effects, hevents, htells, hcourse, hsession, hhistory⟩ := ih
        { l with
          history := (.noted (.abandoning id token) ::
            l.session.listener.toList.map fun c => .abandoned c id token).reverse ++ l.history }
      refine ⟨_, _, _, congrArg _ hevents, htells.abandoned id token, ?_⟩
      rw [Ensures, hforM, bind_of_ok hact]
      refine ⟨hcourse.abandoned id token, hsession, ?_⟩
      rw [hhistory, List.reverse_append, List.append_assoc]

end Action

/-- How a sweep went, and what the operation that it was part of left. -/
structure Swept (h : Host ω) (now : Millis) (l : Live κ ω) (taken left : List Event)
    (effects : List (Effect κ)) (l' : Live κ ω) : Prop where
  events : (l.exchanges.sweep now).1 = taken ++ left
  course : ∃ r w, h.Course taken l.world left r w
  tells : Tells l.session.listener taken left effects
  history : l'.history = effects.reverse ++ l.history
  /-- What was cut short ended there, and the tables are those of a sweep. -/
  exchanges : left ≠ [] → l'.exchanges = (l.exchanges.sweep now).2

/-- The history grew by what comes of no event of a sweep. -/
def Apart (l l' : Live κ ω) : Prop :=
  ∃ es : List (Effect κ), l'.history = es.reverse ++ l.history ∧ ∀ e ∈ es, IsApart e

/-- What follows the sweep. -/
theorem Swept.append (hswept : Swept h now l taken left effects l') {l'' : Live κ ω}
    (hapart : Apart l' l'') (hexchanges : left ≠ [] → l''.exchanges = l'.exchanges) :
    ∃ effects', Swept h now l taken left effects' l'' := by
  obtain ⟨es, hes, hes_apart⟩ := hapart
  refine ⟨effects ++ es, hswept.events, hswept.course, hswept.tells.append_right hes_apart, ?_, ?_⟩
  · rw [hes, hswept.history, List.reverse_append, List.append_assoc]
  · exact fun hleft => (hexchanges hleft).trans (hswept.exchanges hleft)

/-- What comes before the sweep. -/
theorem Swept.of_forgotten {l₁ : Live κ ω} (hswept : Swept h now l₁ taken left effects l')
    (hexchanges : l₁.exchanges = l.exchanges)
    (hlistener : l₁.session.listener = l.session.listener) (hworld : l₁.world = l.world)
    (hhistory : l₁.history = l.history ∨
      ∃ count, l₁.history = .noted (.idsForgotten count) :: l.history) :
    ∃ effects', Swept h now l taken left effects' l' := by
  obtain ⟨hevents, hcourse, htells, hafter, hcut⟩ := hswept
  rw [hexchanges] at hevents hcut
  rw [hworld] at hcourse
  rw [hlistener] at htells
  rcases hhistory with hsame | ⟨count, hnoted⟩
  · rw [hsame] at hafter
    exact ⟨effects, hevents, hcourse, htells, hafter, hcut⟩
  · rw [hnoted] at hafter
    refine ⟨_, hevents, hcourse, htells.forgotten count, ?_, hcut⟩
    rw [hafter, List.reverse_cons, List.append_assoc]
    rfl

namespace Action

theorem sweepExchanges_swept (h : Host ω) (now : Millis) (l : Live κ ω) :
    ∃ taken left effects, Ensures (sweepExchanges h now) l fun r l' =>
      Swept h now l taken left effects l' ∧ (r = .ok () → left = []) := by
  let swept := l.exchanges.sweep now
  obtain ⟨taken, left, effects, hevents, htells, hcourse, hsession, hhistory⟩ :=
    forM_actOn_course h swept.1 { l with session := l.session.setExchanges swept.2 }
  refine ⟨taken, left, effects, ⟨hevents, ⟨_, _, hcourse⟩, htells, hhistory, ?_⟩, ?_⟩
  · exact fun _ => congrArg (·.endpoint.exchanges) hsession
  · intro hr
    have hforM : (swept.1.forM (actOn h) { l with session := l.session.setExchanges swept.2 }).1 =
        .ok () := hr
    rw [hforM] at hcourse
    exact hcourse.left_eq_nil

theorem send_apart (h : Host ω) (m : Message) (during : Activity) (l : Live κ ω) :
    Ensures (send h m during) l fun _ l' => Apart l l' := by
  rw [Ensures]
  rcases send_cases h m during l with ⟨b, w, -, hsend⟩ | ⟨cause, w, -, hsend⟩
  · rw [hsend]
    refine ⟨[.sent b, .noted (.sent m)], rfl, ?_⟩
    simp only [List.mem_cons, List.not_mem_nil, or_false, forall_eq_or_imp, forall_eq]
    exact ⟨⟨rfl, rfl⟩, ⟨rfl, rfl⟩⟩
  · rw [hsend]
    exact ⟨[], rfl, List.forall_mem_nil _⟩

theorem armTimers_history (l : Live κ ω) :
    Ensures armTimers l fun r l' => r = .ok () ∧ l'.history = l.history :=
  ⟨rfl, rfl⟩

theorem keepalive_apart (h : Host ω) (now : Millis) (l : Live κ ω) :
    Ensures (keepalive h now) l fun _ l' => Apart l l' := by
  have hnothing : Apart l l := ⟨[], rfl, List.forall_mem_nil _⟩
  simp only [keepalive, ensures_bind, ensures_session]
  split
  · rw [ensures_ite]
    split
    · simp only [ping, ensures_bind, ensures_session, ensures_note, ensures_modifySession]
      apply (armTimers_history _).imp
      intro r l₁ hl₁
      obtain ⟨rfl, hhistory⟩ := hl₁
      apply (send_apart h _ .keepingAlive _).imp
      intro _ l' hl'
      obtain ⟨es, hes, hapart⟩ := hl'
      refine ⟨.noted (.pinging l.session.endpoint.exchanges.allocate.1) :: es, ?_,
        List.forall_mem_cons.2 ⟨⟨rfl, rfl⟩, hapart⟩⟩
      rw [hes, hhistory, List.reverse_cons, List.append_assoc]
      rfl
    · exact hnothing
  · exact hnothing

theorem sweepDedup_forgotten (now : Millis) (l : Live κ ω) :
    Ensures (sweepDedup now) l fun r l' => r = .ok () ∧ l'.exchanges = l.exchanges ∧
      l'.session.listener = l.session.listener ∧ l'.world = l.world ∧
      (l'.history = l.history ∨ ∃ count, l'.history = .noted (.idsForgotten count) :: l.history) := by
  simp only [sweepDedup, ensures_bind, ensures_session, ensures_modifySession, ensures_ite]
  split
  · exact ⟨rfl, rfl, rfl, rfl, .inr ⟨_, rfl⟩⟩
  · exact ⟨rfl, rfl, rfl, rfl, .inl rfl⟩

/-- A tick sweeps the ids seen, then the exchanges, and pings if nothing was refused. -/
theorem tick_swept (hclock : (h.now l.world).1 = .ok now) :
    Ensures (tick h) l fun _ l' => ∃ taken left effects,
      Swept h now { l with world := (h.now l.world).2 } taken left effects l' := by
  rw [tick, ensures_bind, ensures_now, hclock]
  refine (sweepDedup_forgotten now _).bind_ok ?_
  intro l₁ hl₁
  obtain ⟨hexchanges, hlistener, hworld, hhistory⟩ := hl₁
  obtain ⟨taken, left, effects, hsweep⟩ := sweepExchanges_swept h now l₁
  refine hsweep.bind ?_ ?_
  · intro _ l₂ hl₂
    obtain ⟨hswept, hleft⟩ := hl₂
    apply (keepalive_apart h now l₂).imp
    intro _ l' hapart
    obtain ⟨effects₁, hswept₁⟩ := hswept.append hapart fun hne => absurd (hleft rfl) hne
    exact ⟨taken, left, hswept₁.of_forgotten hexchanges hlistener hworld hhistory⟩
  · intro _ l₂ hl₂
    exact ⟨taken, left, hl₂.1.of_forgotten hexchanges hlistener hworld hhistory⟩

/-- A tick of the timer sweeps the exchanges, and notes a refusal. -/
theorem atPresent_sweepExchanges_swept (hclock : (h.now l.world).1 = .ok now) :
    Ensures (atPresent h (sweepExchanges h)) l fun _ l' => ∃ taken left effects,
      Swept h now { l with world := (h.now l.world).2 } taken left effects l' := by
  obtain ⟨taken, left, effects, hsweep⟩ :=
    sweepExchanges_swept h now { l with world := (h.now l.world).2 }
  rw [atPresent, noted, ensures_bind, ensures_outcome, ensures_bind, ensures_now, hclock]
  apply hsweep.imp
  intro r l₁ hl₁
  cases r with
  | ok _ => exact ⟨taken, left, effects, hl₁.1⟩
  | error f =>
    refine ⟨taken, left, hl₁.1.append ⟨[.noted (.background f)], rfl, ?_⟩ fun _ => rfl⟩
    exact List.forall_mem_singleton.2 ⟨rfl, rfl⟩

theorem sweep_not_mem_pingOps (present : Millis) (s : Session κ) :
    .sweep now ∉ pingOps present s := by
  unfold pingOps
  split <;> simp

theorem sweep_not_mem_atPresentOps {ops : Millis → Session κ → List (Exchanges.Operation κ)}
    (hops : ∀ present s, .sweep now ∉ ops present s) : .sweep now ∉ atPresentOps h ops l := by
  rw [atPresentOps, now_eq]
  cases (h.now l.world).1 with
  | error cause => exact List.not_mem_nil
  | ok present => exact hops present l.session

theorem clock_of_tickOps (hop : .sweep now ∈ tickOps h l) : (h.now l.world).1 = .ok now := by
  rw [tickOps, now_eq] at hop
  cases hclock : (h.now l.world).1 with
  | error cause =>
    rw [hclock] at hop
    cases hop
  | ok present =>
    simp only [hclock, Except.mapError] at hop
    rcases List.mem_cons.1 hop with heq | hping
    · cases heq
      rfl
    · split at hping
      · cases hping
      · exact absurd hping (sweep_not_mem_pingOps _ _)

theorem clock_of_atPresentOps
    (hop : .sweep now ∈ atPresentOps h (fun now _ => [.sweep now]) l) :
    (h.now l.world).1 = .ok now := by
  rw [atPresentOps, now_eq] at hop
  cases hclock : (h.now l.world).1 with
  | error cause =>
    rw [hclock] at hop
    cases hop
  | ok present =>
    rw [hclock] at hop
    cases List.mem_singleton.1 hop
    rfl

theorem exchangesTick_swept (hop : .sweep now ∈ exchangesTickOps h l) :
    Ensures (exchangesTick h) l fun _ l' => ∃ taken left effects,
      Swept h now { l with world := (h.now l.world).2 } taken left effects l' := by
  rw [exchangesTickOps] at hop
  simp only [exchangesTick, ensures_bind, ensures_session]
  rcases htimers : l.session.timers with _ | ⟨_, ⟨_ | _, _⟩, _⟩ <;> rw [htimers] at hop
  · cases hop
  · cases hop
  · have hwork := atPresent_sweepExchanges_swept (clock_of_atPresentOps hop)
    refine hwork.bind ?_ fun _ _ hswept => hswept
    intro _ l₁ hl₁
    obtain ⟨taken, left, effects, hswept⟩ := hl₁
    rw [ensures_modifySession]
    refine ⟨taken, left, hswept.append ⟨[], rfl, List.forall_mem_nil _⟩ fun _ => ?_⟩
    split <;> rfl

end Action

theorem sweep_not_mem_of_arrival (a : Option (Arrival κ ω)) :
    .sweep now ∉ a.elim [] (·.exchangeOps h) := by
  intro hop
  cases a with
  | none => cases hop
  | some a =>
    simp only [Option.elim, Arrival.exchangeOps, Endpoint.exchangeOps] at hop
    grind

/-- Only ticks sweep. -/
theorem perform_swept {op : Operation κ} (hop : .sweep now ∈ exchangeOps h l op) :
    ∃ taken left effects, Swept h now { l with world := (h.now l.world).2 } taken left effects
      (perform h l op) := by
  cases op with
  | tick => exact Action.tick_swept (Action.clock_of_tickOps hop)
  | exchangesTick => exact Action.exchangesTick_swept hop
  | receive datagram => exact absurd hop (sweep_not_mem_of_arrival _)
  | collect => exact absurd hop (sweep_not_mem_of_arrival _)
  | sendRequest m callback =>
    simp only [exchangeOps, Action.sendOps, Action.requestOps] at hop
    grind
  | observe m callback =>
    simp only [exchangeOps, Action.sendOps, Action.requestOps] at hop
    grind
  | keepaliveTick =>
    rw [exchangeOps, Action.keepaliveTickOps] at hop
    split at hop
    · exact absurd hop (Action.sweep_not_mem_atPresentOps Action.sweep_not_mem_pingOps)
    · cases hop
  | unobserve token => cases List.mem_singleton.1 hop
  | dispose => cases List.mem_singleton.1 hop
  | _ => cases hop

/-- **The events of a sweep are acted on in order, each once, up to the first that is refused.** In
every state, when an operation sweeps the exchanges, the events fall into those that are `taken`
and those that are `left`. Each that is taken is announced once, in order; its message was taken by
the transport and goes out, or the listener is told that it was given up. Nothing is left, or the
first event left is a message that is refused, which is announced and ends the matter: nothing comes
of the others. The tables are swept all the same, so that of what was given up among them there is
neither record nor request any more, and nobody will be told. -/
theorem swept_events_taken_in_order (h : Host ω) (l : Live κ ω) (op : Operation κ) (now : Millis)
    (hop : .sweep now ∈ exchangeOps h l op) :
    ∃ (taken left : List Event) (effects : List (Effect κ)),
      (l.exchanges.sweep now).1 = taken ++ left ∧
      (perform h l op).history = effects.reverse ++ l.history ∧
      effects.filterMap Effect.event? = taken ++ left.take 1 ∧
      effects.filterMap Effect.told? = taken.filterMap (Event.told? l.session.listener) ∧
      taken.filterMap Event.datagram? <+: effects.filterMap Effect.datagram? ∧
      (∃ r w, h.Course taken (h.now l.world).2 left r w) ∧
      (left ≠ [] → (perform h l op).exchanges = (l.exchanges.sweep now).2) ∧
      ∀ id token, .abandoned id token ∈ left →
        (perform h l op).exchanges.retries[id]? = none ∧
          (perform h l op).exchanges.pending[id]? = none := by
  obtain ⟨taken, left, effects, hswept⟩ := perform_swept hop
  refine ⟨taken, left, effects, hswept.events, hswept.history, hswept.tells.announced,
    hswept.tells.told, hswept.tells.sent, hswept.course, hswept.exchanges, ?_⟩
  intro id token hlost
  have habandoned : .abandoned id token ∈ (l.exchanges.sweep now).1 := by
    rw [show (l.exchanges.sweep now).1 = _ from hswept.events]
    exact List.mem_append_right taken hlost
  rw [hswept.exchanges (List.ne_nil_of_mem hlost)]
  exact Exchanges.ended_of_abandoned habandoned

/-- Message 8 is out of transmissions and message 7 is due. -/
def sampleDue : Live Unit Nat where
  session :=
    { sampleSession with
      config := { maxRetransmit := 1 }
      endpoint.exchanges :=
        (((Exchanges.new { maxRetransmit := 1 } 6).schedule { id := 8 } 0).sweep 2000).2.schedule
          { id := 7 } 2000
      listener := some () }
  world := 6000

/-- Nobody is told that message 8 was given up: message 7 comes first and is refused. -/
theorem swept_events_taken_in_order_sample :
    let l' := perform deafHost sampleDue .tick
    .sweep 6000 ∈ exchangeOps deafHost sampleDue .tick ∧
      (sampleDue.exchanges.sweep 6000).1 = [.retry { id := 7 }, .abandoned 8 .empty] ∧
      ∃ effects : List (Effect Unit), l'.history = effects.reverse ∧
        effects.filterMap Effect.event? = [.retry { id := 7 }] ∧
        effects.filterMap Effect.told? = [] ∧
        l'.exchanges.retries[(8 : MessageId)]? = none := by
  intro l'
  have hop : .sweep 6000 ∈ exchangeOps deafHost sampleDue .tick := by decide +kernel
  have hsweep : (sampleDue.exchanges.sweep 6000).1 =
      [.retry { id := 7 }, .abandoned 8 .empty] := by decide +kernel
  obtain ⟨taken, left, effects, hevents, hhistory, hannounced, htold, -, ⟨r, w, hcourse⟩, -,
    hended⟩ := swept_events_taken_in_order deafHost sampleDue .tick 6000 hop
  rw [hsweep] at hevents
  have hnone : taken = [] := by
    rcases taken with _ | ⟨event, taken⟩
    · rfl
    · obtain ⟨rfl, -⟩ := List.cons.inj hevents
      obtain ⟨_, htaken⟩ := hcourse.takesAll
      cases htaken with
      | retry hfirst _ => cases hfirst.transmit
  rw [hnone, List.nil_append] at hevents hannounced
  rw [hnone] at htold
  rw [← hevents] at hannounced hended
  rw [show sampleDue.history = [] from rfl, List.append_nil] at hhistory
  exact ⟨hop, hsweep, effects, hhistory, hannounced, htold,
    (hended 8 .empty (by simp)).1⟩

end Session
end Coap
