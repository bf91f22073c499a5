import Coap.Proofs.Network

/-!
What stays true of a client: who waits was never called, what goes out is a request of a call or
a ping, and what a callback was called with bears the token of its call.
-/
namespace Coap.Network

open Session

variable {κ ω : Type}

/-- The calls differ in what the client chooses. -/
structure CallsDiffer (calls : List (Call κ)) : Prop where
  request : ∀ q ∈ calls, q.request.type = .confirmable ∧ q.request.code.method?.isSome
  token : ∀ p ∈ calls, ∀ q ∈ calls, p.request.token = q.request.token → p = q
  callback : ∀ p ∈ calls, ∀ q ∈ calls, ∀ c, p.callback = some c → q.callback = some c → p = q

/-- A request with the id that it got, or a ping. -/
def IsOutgoing (calls : List (Call κ)) (m : Message) : Prop :=
  (∃ q ∈ calls, ∃ id, q.outcome = .ok id ∧ m = { q.request with id }) ∨
    ∃ id, m = Action.pingMessage id

/-- A pending request is that of a call whose callback was never called. -/
def Awaits (calls : List (Call κ)) (history : List (Effect κ)) (id : MessageId) (p : Pending κ) :
    Prop :=
  ∃ q ∈ calls, q.outcome = .ok id ∧ p.token = q.request.token ∧ p.callback = q.callback ∧
    ∀ c, q.callback = some c → ∀ r, .delivered c r ∉ history

/-- What the client keeps true. Of what callbacks are called with, `origin` says where it comes
from. -/
structure ClientSound [DecidableEq κ] (calls : List (Call κ)) (origin : Message → Prop)
    (l : Live κ ω) : Prop where
  observers : l.session.endpoint.exchanges.observers = ∅
  pending : ∀ (id : MessageId) p, l.session.endpoint.exchanges.pending[id]? = some p →
    Awaits calls l.history id p
  retries : ∀ (id : MessageId) r, l.session.endpoint.exchanges.retries[id]? = some r →
    IsOutgoing calls r.message
  sent : ∀ d, .sent d ∈ l.history → ∃ m, IsOutgoing calls m ∧ m.write = .ok d
  delivered : ∀ c r, .delivered c r ∈ l.history → r.kind = .response ∧ origin r ∧
    ∃ q ∈ calls, ∃ id, q.outcome = .ok id ∧ q.callback = some c ∧ q.request.token = r.token
  once : ∀ c, (l.history.filterMap (Effect.response? c)).length ≤ 1

theorem IsOutgoing.mono {calls calls' : List (Call κ)} {m : Message}
    (hsub : ∀ q ∈ calls, q ∈ calls') (h : IsOutgoing calls m) : IsOutgoing calls' m := by
  rcases h with ⟨q, hq, h⟩ | h
  · exact .inl ⟨q, hsub q hq, h⟩
  · exact .inr h

theorem Awaits.mono {calls calls' : List (Call κ)} {history : List (Effect κ)} {id : MessageId}
    {p : Pending κ} (hsub : ∀ q ∈ calls, q ∈ calls') (h : Awaits calls history id p) :
    Awaits calls' history id p := by
  obtain ⟨q, hq, h⟩ := h
  exact ⟨q, hsub q hq, h⟩

namespace ClientSound
variable [DecidableEq κ] {calls calls' : List (Call κ)} {origin origin' : Message → Prop}
  {l l' : Live κ ω}

theorem mono (hs : ClientSound calls origin l) (hsub : ∀ q ∈ calls, q ∈ calls')
    (horigin : ∀ m, origin m → origin' m) : ClientSound calls' origin' l where
  observers := hs.observers
  pending id p hp := (hs.pending id p hp).mono hsub
  retries id r hr := (hs.retries id r hr).mono hsub
  sent d hd := by
    obtain ⟨m, hm, hwrite⟩ := hs.sent d hd
    exact ⟨m, hm.mono hsub, hwrite⟩
  delivered c r hr := by
    obtain ⟨hkind, hr, q, hq, h⟩ := hs.delivered c r hr
    exact ⟨hkind, horigin r hr, q, hsub q hq, h⟩
  once := hs.once

/-- No callback is called, and nothing goes out but what may. -/
theorem grow {β : Type} {v : ω → β} (hs : ClientSound calls origin l)
    (hg : l.Grows v (fun e => e.IsAside ∨ e.IsAbandoned ∨ e.Sends (IsOutgoing calls)) l')
    (hobservers : l'.session.endpoint.exchanges.observers = ∅)
    (hpending : ∀ (id : MessageId) p, l'.session.endpoint.exchanges.pending[id]? = some p →
      Awaits calls l.history id p)
    (hretries : ∀ (id : MessageId) r, l'.session.endpoint.exchanges.retries[id]? = some r →
      IsOutgoing calls r.message) : ClientSound calls origin l' := by
  have hold : ∀ c r, .delivered c r ∈ l'.history → .delivered c r ∈ l.history := by
    intro c r hr
    rcases hg.mem hr with (h | h | ⟨_, _, _, _, h⟩) | h
    · exact h.elim
    · exact h.elim
    · cases h
    · exact h
  refine ⟨hobservers, ?_, hretries, ?_, ?_, ?_⟩
  · intro id p hp
    obtain ⟨q, hq, hid, htoken, hcallback, hnever⟩ := hpending id p hp
    exact ⟨q, hq, hid, htoken, hcallback, fun c hc r hr => hnever c hc r (hold c r hr)⟩
  · intro d hd
    rcases hg.mem hd with (h | h | ⟨m, b, hm, hwrite, h⟩) | h
    · exact h.elim
    · exact h.elim
    · cases h
      exact ⟨m, hm, hwrite⟩
    · exact hs.sent d h
  · intro c r hr
    exact hs.delivered c r (hold c r hr)
  · intro c
    obtain ⟨es, hes, hnew⟩ := hg.history
    have hnone : es.filterMap (Effect.response? c) = [] := by
      rw [Effect.filterMap_response?_eq_nil_iff]
      intro r hr
      rcases hnew _ hr with h | h | ⟨_, _, _, _, h⟩
      · exact h
      · exact h
      · cases h
    rw [hes, List.filterMap_append, hnone]
    exact hs.once c

/-- The same where nothing was put into the tables. -/
theorem shrink {β : Type} {v : ω → β} (hs : ClientSound calls origin l)
    (hg : l.Grows v (fun e => e.IsAside ∨ e.IsAbandoned ∨ e.Sends (IsOutgoing calls)) l')
    (hx : l.session.endpoint.exchanges.Shrinks l'.session.endpoint.exchanges) :
    ClientSound calls origin l' := by
  refine hs.grow hg (hx.observers.trans hs.observers) ?_ ?_
  · intro id p hp
    exact hs.pending id p (hx.pending id p hp)
  · intro id r' hr'
    obtain ⟨r, hr, hmessage⟩ := hx.retries id r' hr'
    rw [hmessage]
    exact hs.retries id r hr

/-- A response is delivered to a request that ends with it. -/
theorem deliver (hs : ClientSound calls origin l) (hdiffer : CallsDiffer calls) {c : κ}
    {id : MessageId} {p : Pending κ} {m : Message}
    (hp : l.session.endpoint.exchanges.pending[id]? = some p) (htoken : p.token = m.token)
    (hcallback : p.callback = some c) (hkind : m.kind = .response) (horigin : origin m)
    (hhistory : l'.history = .delivered c m :: l.history)
    (hx : l.session.endpoint.exchanges.Shrinks l'.session.endpoint.exchanges)
    (hended : l'.session.endpoint.exchanges.pending[id]? = none) :
    ClientSound calls origin l' := by
  obtain ⟨q, hq, hid, hqtoken, hqcallback, hnever⟩ := hs.pending id p hp
  have hqc : q.callback = some c := by rw [← hqcallback, hcallback]
  refine ⟨hx.observers.trans hs.observers, ?_, ?_, ?_, ?_, ?_⟩
  · intro id' p' hp'
    obtain ⟨q', hq', hid', htoken', hcallback', hnever'⟩ := hs.pending id' p' (hx.pending _ _ hp')
    refine ⟨q', hq', hid', htoken', hcallback', ?_⟩
    intro c' hc' r hr
    rw [hhistory] at hr
    rcases List.mem_cons.1 hr with h | h
    · cases h
      -- the callback's only call is the one that has ended
      obtain rfl := hdiffer.callback q hq q' hq' c hqc hc'
      obtain rfl : id = id' := Except.ok.inj (hid.symm.trans hid')
      rw [hended] at hp'
      cases hp'
    · exact hnever' c' hc' r h
  · intro id' r' hr'
    obtain ⟨r, hr, hmessage⟩ := hx.retries id' r' hr'
    rw [hmessage]
    exact hs.retries id' r hr
  · intro d hd
    rw [hhistory] at hd
    rcases List.mem_cons.1 hd with h | h
    · cases h
    · exact hs.sent d h
  · intro c' r hr
    rw [hhistory] at hr
    rcases List.mem_cons.1 hr with h | h
    · cases h
      exact ⟨hkind, horigin, q, hq, id, hid, hqc, hqtoken.symm.trans htoken⟩
    · exact hs.delivered c' r h
  · intro c'
    rw [hhistory]
    by_cases hc : c = c'
    · subst hc
      have hnone : l.history.filterMap (Effect.response? c) = [] :=
        Effect.filterMap_response?_eq_nil_iff.2 (hnever c hqc)
      have hself : Effect.response? c (.delivered c m) = some m :=
        Effect.response?_eq_some_iff.2 rfl
      rw [List.filterMap_cons_some hself, hnone]
      exact Nat.le_refl 1
    · have hother : Effect.response? c' (.delivered c m) = none := if_neg hc
      rw [List.filterMap_cons_none hother]
      exact hs.once c'

/-- A datagram that is neither a request nor confirmable. -/
theorem receive (hs : ClientSound calls origin l) (hdiffer : CallsDiffer calls) (h : Host ω)
    {datagram : Bytes}
    (hdatagram : ∀ m, Message.read datagram = .ok m →
      m.kind ≠ .request ∧ m.type ≠ .confirmable ∧ origin m) :
    ClientSound calls origin (Action.receive h datagram l).2 := by
  rcases Action.receive_ensures (l := l) (h.keeps_const ()) datagram with
    hq | ⟨now, m, l₁, -, hread, hq, hg, hendpoint⟩
  · exact hs.shrink (hq.toGrows.mono fun _ => .inl) (hq.endpoint ▸ .refl)
  · have hs₁ : ClientSound calls origin l₁ :=
      hs.shrink (hq.toGrows.mono fun _ => .inl) (hq.endpoint ▸ .refl)
    obtain ⟨hkind, htype, horigin⟩ := hdatagram m hread
    obtain ⟨hreply, hx, hcases⟩ := Endpoint.handle_response_cases h.application now
      l₁.world hkind htype hs₁.observers
    have hg' := hg.mono (q := fun e => e.IsAside ∨ e.IsAbandoned ∨ e.Sends (IsOutgoing calls)) <| by
      intro e he
      rcases he with he | ⟨_, _, hr, _, _⟩
      · exact .inl he
      · rw [hreply] at hr
        cases hr
    rcases hcases with haside | ⟨first, c, id, p, heffects, hfirst, hresponse, hp, htoken,
      hcallback, hended⟩
    · have hafter := Live.after_grows (l := l₁) (v := fun _ => ()) rfl haside
      exact hs₁.shrink ((hafter.mono fun _ => .inl).trans hg') (hendpoint ▸ hx)
    · have hs₂ : ClientSound calls origin { l₁ with history := first.reverse ++ l₁.history } := by
        refine hs₁.shrink (v := fun _ => ()) ⟨rfl, rfl, _, rfl, ?_⟩ .refl
        intro e he
        exact .inl (hfirst e (List.mem_reverse.1 he))
      have hhistory : (l₁.after (l₁.session.endpoint.handle h.application now m l₁.world)).history =
          .delivered c m :: (first.reverse ++ l₁.history) := by
        show _ ++ l₁.history = _
        rw [heffects, List.reverse_append]
        rfl
      have hs₃ := hs₂.deliver hdiffer hp htoken hcallback hresponse horigin hhistory hx hended
      exact hs₃.shrink hg' (hendpoint ▸ .refl)

theorem tick (hs : ClientSound calls origin l) (h : Host ω) :
    ClientSound calls origin (Action.tick h l).2 := by
  rcases Action.tick_ensures (l := l) (h.keeps_const ()) with
    hq | ⟨now, -, hg, -, hexchanges⟩
  · exact hs.shrink (hq.toGrows.mono fun _ => .inl) (hq.endpoint ▸ .refl)
  · have hx := l.session.endpoint.exchanges.sweep_shrinks now
    have hg' := hg.mono (q := fun e => e.IsAside ∨ e.IsAbandoned ∨ e.Sends (IsOutgoing calls)) <| by
      intro e he
      rcases he with he | he | he
      · exact .inl he
      · exact .inr (.inl he)
      · refine .inr (.inr (he.mono ?_))
        intro m hm
        rcases hm with hm | ⟨-, rfl⟩
        · obtain ⟨id, r, hr, rfl⟩ := Exchanges.retry_of_sweep hm
          exact hs.retries id r hr
        · exact .inr ⟨_, rfl⟩
    rcases hexchanges with hswept | ⟨-, hpinged⟩
    · exact hs.shrink hg' (hswept ▸ hx)
    · refine hs.grow hg' ?_ ?_ ?_
      · rw [hpinged, Exchanges.observers_schedule]
        exact hx.observers.trans hs.observers
      · intro id p hp
        rw [hpinged, Exchanges.pending_schedule] at hp
        exact hs.pending id p (hx.pending id p hp)
      · intro id r' hr'
        rw [hpinged] at hr'
        rcases Exchanges.retries_schedule hr' with ⟨-, hmessage⟩ | hold
        · exact .inr ⟨_, hmessage⟩
        · obtain ⟨r, hr, hmessage⟩ := hx.retries id r' hold
          rw [hmessage]
          exact hs.retries id r hr

/-- A new call: its request waits and goes out, or it has failed and left nothing. -/
theorem call (hs : ClientSound calls origin l) (h : Host ω) (m : Message) (callback : Option κ)
    (hcallback : ∀ q ∈ calls, ∀ c, q.callback = some c → callback ≠ some c) :
    ClientSound (⟨{ m with token := l.session.tokenFor m }, callback,
      (Action.sendRequest h m callback l).1⟩ :: calls) origin
      (Action.sendRequest h m callback l).2 := by
  obtain ⟨-, hbegins, hg⟩ := Action.sendRequest_ensures (l := l) (h.keeps_const ()) m callback
  generalize hrequest : { m with token := l.session.tokenFor m } = request at *
  generalize hr : (Action.sendRequest h m callback l).1 = r at *
  generalize (Action.sendRequest h m callback l).2 = l' at *
  have hs' : ClientSound (⟨request, callback, r⟩ :: calls) origin l :=
    hs.mono (fun q hq => List.mem_cons_of_mem _ hq) fun _ => id
  have hg' := hg.mono (q := fun e => e.IsAside ∨ e.IsAbandoned ∨
      e.Sends (IsOutgoing (⟨request, callback, r⟩ :: calls))) <| by
    intro e he
    rcases he with he | ⟨id, hid, he⟩
    · exact .inl he
    · exact .inr (.inr (he.mono fun m' hm' => .inl ⟨_, List.mem_cons_self, id, hid, hm'⟩))
  rcases hbegins.once_cases with ⟨-, hx⟩ | ⟨id, hid, hobservers, hpending, hretries⟩
  · exact hs'.shrink hg' hx
  · have hok : r = .ok id := by
      cases r with
      | error f => cases hid
      | ok id' => cases hid; rfl
    refine hs'.grow hg' (hobservers.trans hs.observers) ?_ ?_
    · intro id' p hp
      rcases hpending id' p hp with hold | ⟨rfl, htoken, hpcallback⟩
      · exact hs'.pending id' p hold
      · refine ⟨_, List.mem_cons_self, hok, htoken, hpcallback, ?_⟩
        intro c hc r' hr'
        obtain ⟨-, -, q, hq, -, -, hqc, -⟩ := hs.delivered c r' hr'
        exact hcallback q hq c hqc hc
    · intro id' r' hr'
      rcases hretries id' r' hr' with hold | hmessage
      · exact hs'.retries id' r' hold
      · exact .inl ⟨_, List.mem_cons_self, id, hok, hmessage⟩

end ClientSound
end Coap.Network
