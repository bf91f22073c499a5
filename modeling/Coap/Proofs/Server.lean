import Coap.Proofs.Network

/-!
What stays true of a server: the id of every request that was answered is still remembered, so
that no two answers are to one id, and what goes out is the answer to such a request or carries
no response.
-/
namespace Coap

variable {ω' : Type}

/-- The application replies with responses whose class the wire can carry. -/
def Host.RepliesInRange (h : Host ω') : Prop :=
  ∀ method m w reply, (h.application method m w).1 = .ok reply →
    1 ≤ reply.code.category.toNat ∧ reply.code.category.toNat ≤ 7

theorem Host.answers_of_error {h : Host ω'} {method : Method} {m : Message}
    {w : ω' × List Answer} {reason : String}
    (happ : (h.recording.application method m w).1 = .error reason) :
    (h.recording.application method m w).2.2 = w.2 := by
  simp only [recording] at happ ⊢
  split at happ
  · rfl
  · cases happ

theorem Host.answers_of_ok {h : Host ω'} {method : Method} {m : Message}
    {w : ω' × List Answer} {reply : Message}
    (happ : (h.recording.application method m w).1 = .ok reply) :
    (h.application method m w.1).1 = .ok reply ∧
      (h.recording.application method m w).2.2 = ⟨m, reply⟩ :: w.2 := by
  simp only [recording] at happ ⊢
  split at happ
  · cases happ
  · rename_i reply' w' happ'
    cases happ
    rw [happ']
    exact ⟨rfl, rfl⟩

namespace Network

open Session

variable {κ κ' : Type}

/-- The answer to a request, or a message without a response. -/
def IsReply (answers : List Answer) (m : Message) : Prop :=
  (m.kind = .empty ∧ m.type ≠ .confirmable) ∨
    ∃ a ∈ answers, m = Endpoint.replyTo a.request a.reply

/-- What goes back for a request. -/
theorem IsReply.of_request {e : Endpoint κ'} {h : Host ω'} {now : Millis} {method : Method}
    {m r : Message} {w : ω' × List Answer} (htype : m.type = .confirmable)
    (hreply : (e.request h.recording.application now method m w).reply = some r) :
    IsReply (e.request h.recording.application now method m w).world.2 r := by
  obtain ⟨-, -, hcases⟩ := Endpoint.request_cases e h.recording.application now method w htype
  generalize e.request h.recording.application now method m w = turn at hreply hcases ⊢
  have hack : ∀ answers, IsReply answers (m.ack m.id) :=
    fun _ => .inl ⟨rfl, by simp [Message.ack]⟩
  rcases hcases with ⟨-, -, -, hack'⟩ |
    ⟨-, hworld, ⟨_, -, -, hnone⟩ | ⟨answer, happ, -, hack' | hreply'⟩⟩
  · rw [hack'] at hreply
    cases hreply
    exact hack _
  · rw [hnone] at hreply
    cases hreply
  · rw [hack'] at hreply
    cases hreply
    exact hack _
  · rw [hreply'] at hreply
    cases hreply
    rw [hworld, (Host.answers_of_ok happ).2]
    exact .inr ⟨⟨m, answer⟩, List.mem_cons_self, rfl⟩

/-- The request of a call was answered in range, and its id is remembered for a lifetime from its
first arrival on. -/
structure Answered (calls : List (Call κ)) (arrivals : List (Message × Millis))
    (s : Session κ') (a : Answer) : Prop where
  reads : ∃ q ∈ calls, q.Reads a.request
  range : 1 ≤ a.reply.code.category.toNat ∧ a.reply.code.category.toNat ≤ 7
  seen : ∃ t expiry, (a.request, t) ∈ arrivals ∧
    s.endpoint.dedup.seen[a.request.id]? = some expiry ∧
    Millis.add t s.config.exchangeLifetime ≤ expiry

/-- What the server keeps true. -/
structure ServerSound (calls : List (Call κ)) (arrivals : List (Message × Millis))
    (l : Live κ' (ω' × List Answer)) : Prop where
  keepalive : l.session.config.keepalive = none
  lifetime : l.session.endpoint.dedup.lifetime = l.session.config.exchangeLifetime
  retries : ∀ id : MessageId, l.session.endpoint.exchanges.retries[id]? = none
  sent : ∀ d, .sent d ∈ l.history → ∃ m, IsReply l.world.2 m ∧ m.write = .ok d
  answered : ∀ a ∈ l.world.2, Answered calls arrivals l.session a
  ids : l.world.2.Pairwise fun a b => a.request.id ≠ b.request.id

namespace ServerSound
variable {calls calls' : List (Call κ)} {arrivals arrivals' : List (Message × Millis)}
  {l l' : Live κ' (ω' × List Answer)}

theorem mono (hs : ServerSound calls arrivals l) (hcalls : ∀ q ∈ calls, q ∈ calls')
    (harrivals : ∀ a ∈ arrivals, a ∈ arrivals') : ServerSound calls' arrivals' l := by
  refine ⟨hs.keepalive, hs.lifetime, hs.retries, hs.sent, ?_, hs.ids⟩
  intro a ha
  obtain ⟨⟨q, hq, hreads⟩, hrange, t, expiry, ht, hexpiry⟩ := hs.answered a ha
  exact ⟨⟨q, hcalls q hq, hreads⟩, hrange, t, expiry, harrivals _ ht, hexpiry⟩

/-- Nothing is answered, no answered id is forgotten, and nothing goes out but replies. -/
theorem grow (hs : ServerSound calls arrivals l)
    (hconfig : l'.session.config = l.session.config) (hanswers : l'.world.2 = l.world.2)
    (hsent : ∀ d, .sent d ∈ l'.history →
      .sent d ∈ l.history ∨ ∃ m, IsReply l.world.2 m ∧ m.write = .ok d)
    (hlifetime : l'.session.endpoint.dedup.lifetime = l.session.endpoint.dedup.lifetime)
    (hseen : ∀ a ∈ l.world.2, ∀ t expiry, (a.request, t) ∈ arrivals →
      Millis.add t l.session.config.exchangeLifetime ≤ expiry →
      l.session.endpoint.dedup.seen[a.request.id]? = some expiry →
      l'.session.endpoint.dedup.seen[a.request.id]? = some expiry)
    (hretries : ∀ id : MessageId, l'.session.endpoint.exchanges.retries[id]? = none) :
    ServerSound calls arrivals l' := by
  refine ⟨by rw [hconfig]; exact hs.keepalive, by rw [hconfig, hlifetime]; exact hs.lifetime,
    hretries, ?_, ?_, by rw [hanswers]; exact hs.ids⟩
  · intro d hd
    rw [hanswers]
    rcases hsent d hd with h | h
    · exact hs.sent d h
    · exact h
  · intro a ha
    rw [hanswers] at ha
    obtain ⟨hreads, hrange, t, expiry, ht, hexpiry, hle⟩ := hs.answered a ha
    exact ⟨hreads, hrange, t, expiry, ht, hseen a ha t expiry ht hle hexpiry,
      by rw [hconfig]; exact hle⟩

/-- Once a message was handled, what may go out is the reply. -/
theorem reply (hs : ServerSound calls arrivals l) {p : Message → Prop}
    (hg : l.Grows Prod.snd (fun e => e.IsAside ∨ e.Sends p) l')
    (hp : ∀ m, p m → IsReply l.world.2 m)
    (hendpoint : l'.session.endpoint = l.session.endpoint) : ServerSound calls arrivals l' := by
  refine hs.grow hg.config hg.view ?_ (by rw [hendpoint]) ?_ (by rw [hendpoint]; exact hs.retries)
  · intro d hd
    rcases hg.mem hd with (h | ⟨m, b, hm, hwrite, h⟩) | h
    · exact h.elim
    · cases h
      exact .inr ⟨m, hp m hm, hwrite⟩
    · exact .inl h
  · intro a _ t expiry _ _ hexpiry
    rw [hendpoint]
    exact hexpiry

theorem quiet (hs : ServerSound calls arrivals l) (hq : l.Quiet Prod.snd l') :
    ServerSound calls arrivals l' :=
  hs.reply (p := fun _ => False) (hq.toGrows.mono fun _ => .inl) (fun _ h => h.elim) hq.endpoint

/-- A request whose id was not seen is answered and remembered. -/
theorem answer (hs : ServerSound calls arrivals l) {a : Answer} {now t : Millis}
    (hreads : ∃ q ∈ calls, q.Reads a.request)
    (hrange : 1 ≤ a.reply.code.category.toNat ∧ a.reply.code.category.toNat ≤ 7)
    (harrived : (a.request, t) ∈ arrivals) (ht : t ≤ now)
    (hnew : l.session.endpoint.dedup.contains a.request.id = false)
    (hconfig : l'.session.config = l.session.config)
    (hdedup : l'.session.endpoint.dedup = l.session.endpoint.dedup.remember a.request.id now)
    (hretries : ∀ id : MessageId, l'.session.endpoint.exchanges.retries[id]? = none)
    (hanswers : l'.world.2 = a :: l.world.2)
    (hsent : ∀ d, .sent d ∈ l'.history → .sent d ∈ l.history) :
    ServerSound calls arrivals l' := by
  refine ⟨by rw [hconfig]; exact hs.keepalive, by rw [hconfig, hdedup]; exact hs.lifetime,
    hretries, ?_, ?_, ?_⟩
  · intro d hd
    obtain ⟨m, hm, hwrite⟩ := hs.sent d (hsent d hd)
    refine ⟨m, ?_, hwrite⟩
    rw [hanswers]
    exact hm.imp_right fun ⟨b, hb, h⟩ => ⟨b, List.mem_cons_of_mem _ hb, h⟩
  · intro b hb
    rw [hanswers] at hb
    rcases List.mem_cons.1 hb with rfl | hb
    · refine ⟨hreads, hrange, t, Millis.add now l.session.endpoint.dedup.lifetime, harrived, ?_, ?_⟩
      · rw [hdedup]
        exact Dedup.remember_new hnew
      · rw [hs.lifetime, hconfig]
        exact Millis.add_le_add_right ht _
    · obtain ⟨hreads, hrange, t, expiry, ht, hexpiry, hle⟩ := hs.answered b hb
      refine ⟨hreads, hrange, t, expiry, ht, ?_, by rw [hconfig]; exact hle⟩
      rw [hdedup]
      exact Dedup.remember_of_seen hexpiry
  · rw [hanswers]
    refine List.pairwise_cons.2 ⟨?_, hs.ids⟩
    intro b hb
    obtain ⟨-, -, _, _, -, hexpiry, -⟩ := hs.answered b hb
    exact (Dedup.ne_of_contains_eq_false hnew hexpiry).symm

/-- A request of a call that arrives. -/
theorem request (hs : ServerSound calls arrivals l) {h : Host ω'} (hrange : h.RepliesInRange)
    {m : Message} {now t : Millis} (hreads : ∃ q ∈ calls, q.Reads m) (htype : m.type = .confirmable)
    (harrived : (m, t) ∈ arrivals) (ht : t ≤ now) (method : Method) :
    ServerSound calls arrivals (l.after
      (l.session.endpoint.request h.recording.application now method m l.world)) := by
  obtain ⟨hexchanges, hsent, hcases⟩ := Endpoint.request_cases l.session.endpoint
    h.recording.application now method l.world htype
  generalize l.session.endpoint.request h.recording.application now method m l.world = turn
    at hexchanges hsent hcases ⊢
  have hsent' : ∀ d, .sent d ∈ (l.after turn).history → .sent d ∈ l.history :=
    fun d => Live.sent_of_after hsent
  have hretries : ∀ id : MessageId, turn.endpoint.exchanges.retries[id]? = none := by
    rw [hexchanges]
    exact hs.retries
  rcases hcases with ⟨-, hdedup, hworld, -⟩ |
    ⟨hnew, hworld, ⟨reason, happ, hdedup, -⟩ | ⟨answer, happ, hdedup, -⟩⟩
  · refine hs.grow rfl (congrArg Prod.snd hworld) (fun d hd => .inl (hsent' d hd))
      (congrArg Dedup.lifetime hdedup) ?_ hretries
    intro a _ t expiry _ _ hexpiry
    show turn.endpoint.dedup.seen[a.request.id]? = some expiry
    rw [hdedup]
    exact hexpiry
  · refine hs.grow rfl ?_ (fun d hd => .inl (hsent' d hd)) ?_ ?_ hretries
    · show turn.world.2 = l.world.2
      rw [hworld]
      exact Host.answers_of_error happ
    · show turn.endpoint.dedup.lifetime = _
      rw [hdedup]
      rfl
    · intro a _ t expiry _ _ hexpiry
      show turn.endpoint.dedup.seen[a.request.id]? = some expiry
      rw [hdedup, Dedup.forget_of_ne (Dedup.ne_of_contains_eq_false hnew hexpiry)]
      exact Dedup.remember_of_seen hexpiry
  · obtain ⟨happ', hanswers⟩ := Host.answers_of_ok happ
    have hview : turn.world.2 = ⟨m, answer⟩ :: l.world.2 := by
      rw [hworld]
      exact hanswers
    exact hs.answer (a := ⟨m, answer⟩) hreads (hrange _ _ _ _ happ') harrived ht hnew rfl hdedup
      hretries hview hsent'

/-- A request of a call, or a ping. -/
theorem receive (hs : ServerSound calls arrivals l) {h : Host ω'} (hrange : h.RepliesInRange)
    {datagram : Bytes}
    (hdatagram : ∀ m, Message.read datagram = .ok m → m.type = .confirmable ∧
      (m.kind = .empty ∨ m.code.method?.isSome ∧ ∃ q ∈ calls, q.Reads m))
    (harrived : ∀ now m, (h.recording.now l.world).1 = .ok now → Message.read datagram = .ok m →
      m.kind = .request → ∃ t, (m, t) ∈ arrivals ∧ t ≤ now) :
    ServerSound calls arrivals (Action.receive h.recording datagram l).2 := by
  rcases Action.receive_ensures (l := l) h.recording_keeps datagram with
    hq | ⟨now, m, l₁, hnow, hread, hq, hg, hendpoint⟩
  · exact hs.quiet hq
  · have hs₁ := hs.quiet hq
    obtain ⟨htype, hempty | ⟨hmethod, hreads⟩⟩ := hdatagram m hread
    · rw [Endpoint.handle_ping hempty htype] at hg hendpoint
      have hs₂ : ServerSound calls arrivals (l₁.after (l₁.session.endpoint.ping m l₁.world)) :=
        hs₁.reply (p := fun _ => False) (Live.after_grows rfl (by simp [Endpoint.ping,
          Effect.IsAside])) (fun _ h => h.elim) rfl
      refine hs₂.reply hg ?_ hendpoint
      rintro r hr
      cases hr
      exact .inl ⟨rfl, by simp [Message.rejection]⟩
    · obtain ⟨method, hmethod⟩ := Option.isSome_iff_exists.1 hmethod
      obtain ⟨t, ht, hle⟩ := harrived now m hnow hread (Code.kind_of_method? hmethod)
      rw [Endpoint.handle_request hmethod] at hg hendpoint
      have hs₂ := hs₁.request hrange hreads htype ht hle method
      exact hs₂.reply hg (fun r => IsReply.of_request htype) hendpoint

/-- A tick forgets no id of a request whose lifetime lasts. -/
theorem tick (hs : ServerSound calls arrivals l) {h : Host ω'}
    (hlasts : ∀ now, (h.recording.now l.world).1 = .ok now → ∀ a ∈ arrivals,
      now < Millis.add a.2 l.session.config.exchangeLifetime) :
    ServerSound calls arrivals (Action.tick h.recording l).2 := by
  rcases Action.tick_ensures (l := l) h.recording_keeps with
    hq | ⟨now, hnow, hg, hdedup, hexchanges⟩
  · exact hs.quiet hq
  · have hkeepalive := hs.keepalive
    have hx := l.session.endpoint.exchanges.sweep_shrinks now
    refine hs.grow hg.config hg.view ?_ ?_ ?_ ?_
    · intro d hd
      rcases hg.mem hd with (h | h | ⟨m, b, hm | ⟨hping, -⟩, -, -⟩) | h
      · exact h.elim
      · exact h.elim
      · obtain ⟨id, r, hr, -⟩ := Exchanges.retry_of_sweep hm
        rw [hs.retries id] at hr
        cases hr
      · exact absurd hkeepalive hping
      · exact .inl h
    · rw [hdedup]
      rfl
    · intro a ha t expiry ht hle hexpiry
      rw [hdedup]
      exact Dedup.sweep_of_lt hexpiry (Nat.lt_of_lt_of_le (hlasts now hnow _ ht) hle)
    · rcases hexchanges with hswept | ⟨hping, -⟩
      · intro id
        rw [hswept]
        cases hr' : (l.session.endpoint.exchanges.sweep now).2.retries[id]? with
        | none => rfl
        | some r' =>
          obtain ⟨r, hr, -⟩ := hx.retries id r' hr'
          rw [hs.retries id] at hr
          cases hr
      · exact absurd hkeepalive hping

end ServerSound
end Network
end Coap
